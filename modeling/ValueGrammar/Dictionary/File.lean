import ValueGrammar.Archive.Zstandard
import ValueGrammar.Dictionary.Document

/-!
# `ValueGrammar.Dictionary.File` — dictionaries in files

The name of a file tells how its content is compressed.

## Contents
- `Compression`, `Compression.ofPath`.
- `Compression.source`: the bytes of a file.
- `Dictionary.loadFile`.
-/

namespace ValueGrammar

/-- How the content of a file is compressed. -/
inductive Compression where
  | uncompressed
  | gzip
  | zstandard
  deriving Repr, DecidableEq, Inhabited

namespace Compression

/-- The end of a path from the last dot of its last element on, or nothing. -/
def extension (path : String) : String :=
  let name := path.toList.reverse.takeWhile (· != '/')
  if name.contains '.' then String.ofList ('.' :: (name.takeWhile (· != '.')).reverse) else ""

/-- The compression that the name of a file promises. -/
def ofPath (path : String) : Compression :=
  let e := extension path
  if e = ".gz" then .gzip else if e = ".zst" then .zstandard else .uncompressed

/-- The bytes of an archive. -/
def ofContent (c : Archive.Content) : Yaml.Source := ⟨c.pieces, c.failure⟩

/-- The bytes of a file after decompression. What is wrong with an archive is seen where its bytes
are read, unless it does not start like one. -/
def source (c : Compression) (content : List UInt8) : Except Error Yaml.Source :=
  match c with
  | .uncompressed => .ok (.ofBytes content)
  | .gzip => (ofContent <$> Archive.Gzip.decode content).mapError Error.archive
  | .zstandard => .ok (ofContent (Archive.Zstandard.decode content))

end Compression

namespace Dictionary

/-- Adds the grammars of a file, given its content if it exists. -/
def loadFile (d : Dictionary) (path : String) (content : Option (List UInt8)) :
    Except Error Unit × Dictionary :=
  match content with
  | none => (.error (.fileNotFound path), d)
  | some bytes =>
    match (Compression.ofPath path).source bytes with
    | .error e => (.error (.during path e), d)
    | .ok source =>
      let r := d.load source
      (r.1.mapError (.during path), r.2)

end Dictionary

end ValueGrammar
