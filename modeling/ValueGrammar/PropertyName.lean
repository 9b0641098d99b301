/-!
# `ValueGrammar.PropertyName` — vendor prefixes and custom properties
-/

namespace ValueGrammar

namespace PropertyName

/-- Splits a name such as `-webkit-box-shadow` into the vendor's prefix `-webkit-` and the rest. A
name without a prefix has an empty one. -/
def vendorPrefix (name : String) : String × String :=
  match name.toList with
  | '-' :: r =>
    match r.takeWhile (· != '-'), r.dropWhile (· != '-') with
    | v :: vendor, '-' :: base =>
      (String.ofList ('-' :: v :: vendor ++ ['-']), String.ofList base)
    | _, _ => ("", name)
  | _ => ("", name)

/-- Does the name start with two dashes? -/
def isCustom (name : String) : Bool :=
  match name.toList with
  | '-' :: '-' :: _ => true
  | _ => false

end PropertyName

end ValueGrammar
