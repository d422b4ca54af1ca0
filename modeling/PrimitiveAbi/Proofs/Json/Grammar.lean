import PrimitiveAbi.Json.Text

/-!
# The grammar of JSON texts

What it means that a text begins with a JSON value, said without a reader. A value is a `Tree`, in
which white space and the choice of escapes have no place: numbers are kept as they are written, and
the members of an object in their order, repeated names included. `Spells t cs rest` says that `cs`
is a spelling of `t`, white space in front included, with `rest` behind it; the relations on parts
have the same two ends.
-/

namespace PrimitiveAbi.Json

/-- A JSON value, up to white space and the choice of escapes. -/
inductive Tree where
  | null
  | boolean (value : Bool)
  | number (token : List Char)
  | text (value : String)
  | array (items : List Tree)
  | object (members : List (String × Tree))

/-- White space, possibly none, in front of a text. -/
inductive Gap : List Char → List Char → Prop
  | nil {cs : List Char} : Gap cs cs
  | cons {c : Char} {cs rest : List Char} : isBlank c = true → Gap cs rest → Gap (c :: cs) rest

/-! ### Strings -/

/-- The escapes of one letter, and the characters that they stand for. -/
def shortEscapes : List (Char × Char) :=
  [('"', '"'), ('\\', '\\'), ('/', '/'), ('b', '\x08'), ('f', '\x0c'), ('n', '\n'), ('r', '\r'),
   ('t', '\t')]

/-- The high surrogate of a character above U+FFFF. -/
def highSurrogate (c : Char) : Nat := 0xd800 + (c.toNat - 0x10000) / 0x400

/-- The low surrogate of a character above U+FFFF. -/
def trailSurrogate (c : Char) : Nat := 0xdc00 + (c.toNat - 0x10000) % 0x400

/-- The inside of a string that holds a content, from behind the opening quote: each character is
written as it is, by a letter, by its code, or by its pair of surrogates. -/
inductive StringBody : List Char → List Char → List Char → Prop
  | close {rest : List Char} : StringBody [] ('"' :: rest) rest
  | plain {c : Char} {s cs rest : List Char} : c ≠ '"' → c ≠ '\\' → 0x20 ≤ c.toNat →
      StringBody s cs rest → StringBody (c :: s) (c :: cs) rest
  | short {letter c : Char} {s cs rest : List Char} : (letter, c) ∈ shortEscapes →
      StringBody s cs rest → StringBody (c :: s) ('\\' :: letter :: cs) rest
  | code {c x₁ x₂ x₃ x₄ : Char} {s cs rest : List Char} : hexNumber? x₁ x₂ x₃ x₄ = some c.toNat →
      StringBody s cs rest → StringBody (c :: s) ('\\' :: 'u' :: x₁ :: x₂ :: x₃ :: x₄ :: cs) rest
  | pair {c x₁ x₂ x₃ x₄ y₁ y₂ y₃ y₄ : Char} {s cs rest : List Char} : 0x10000 ≤ c.toNat →
      hexNumber? x₁ x₂ x₃ x₄ = some (highSurrogate c) →
      hexNumber? y₁ y₂ y₃ y₄ = some (trailSurrogate c) → StringBody s cs rest →
      StringBody (c :: s)
        ('\\' :: 'u' :: x₁ :: x₂ :: x₃ :: x₄ :: '\\' :: 'u' :: y₁ :: y₂ :: y₃ :: y₄ :: cs) rest

/-! ### Numbers -/

/-- One digit or more. -/
def IsDigits (ds : List Char) : Prop := ds ≠ [] ∧ ∀ d ∈ ds, d.isDigit = true

/-- The digits before the point, without a zero in front of others. -/
def IsWhole (ds : List Char) : Prop := IsDigits ds ∧ (ds.head? = some '0' → ds = ['0'])

/-- A fraction, possibly none. -/
inductive IsFraction : List Char → Prop
  | none : IsFraction []
  | point {ds : List Char} : IsDigits ds → IsFraction ('.' :: ds)

/-- An exponent, possibly none. -/
inductive IsExponent : List Char → Prop
  | none : IsExponent []
  | bare {e : Char} {ds : List Char} : e = 'e' ∨ e = 'E' → IsDigits ds → IsExponent (e :: ds)
  | signed {e sign : Char} {ds : List Char} : e = 'e' ∨ e = 'E' → sign = '+' ∨ sign = '-' →
      IsDigits ds → IsExponent (e :: sign :: ds)

/-- A number as it is written. -/
inductive IsNumber : List Char → Prop
  | plain {whole fraction exponent : List Char} : IsWhole whole → IsFraction fraction →
      IsExponent exponent → IsNumber (whole ++ fraction ++ exponent)
  | minus {whole fraction exponent : List Char} : IsWhole whole → IsFraction fraction →
      IsExponent exponent → IsNumber ('-' :: whole ++ fraction ++ exponent)

/-! ### Values -/

/-- The comma in front of an element or a member, unless it is the first. -/
inductive Separator : Bool → List Char → List Char → Prop
  | first {cs : List Char} : Separator true cs cs
  | comma {cs rest : List Char} : Gap cs (',' :: rest) → Separator false cs rest

mutual

/-- A value, with the white space in front of it. -/
inductive Spells : Tree → List Char → List Char → Prop
  | null {cs rest : List Char} : Gap cs ('n' :: 'u' :: 'l' :: 'l' :: rest) → Spells .null cs rest
  | true {cs rest : List Char} : Gap cs ('t' :: 'r' :: 'u' :: 'e' :: rest) →
      Spells (.boolean true) cs rest
  | false {cs rest : List Char} : Gap cs ('f' :: 'a' :: 'l' :: 's' :: 'e' :: rest) →
      Spells (.boolean false) cs rest
  | number {token cs rest : List Char} : IsNumber token → Gap cs (token ++ rest) →
      Spells (.number token) cs rest
  | text {s : String} {cs body rest : List Char} : Gap cs ('"' :: body) →
      StringBody s.toList body rest → Spells (.text s) cs rest
  | array {ts : List Tree} {cs body rest : List Char} : Gap cs ('[' :: body) →
      Items true ts body rest → Spells (.array ts) cs rest
  | object {ms : List (String × Tree)} {cs body rest : List Char} : Gap cs ('\x7b' :: body) →
      Members true ms body rest → Spells (.object ms) cs rest

/-- The elements of an array from the first or a later one on, and the closing bracket. -/
inductive Items : Bool → List Tree → List Char → List Char → Prop
  | close {first : Bool} {cs rest : List Char} : Gap cs (']' :: rest) → Items first [] cs rest
  | item {first : Bool} {t : Tree} {ts : List Tree} {cs cs₁ cs₂ rest : List Char} :
      Separator first cs cs₁ → Spells t cs₁ cs₂ → Items false ts cs₂ rest →
      Items first (t :: ts) cs rest

/-- The members of an object from the first or a later one on, and the closing brace. -/
inductive Members : Bool → List (String × Tree) → List Char → List Char → Prop
  | close {first : Bool} {cs rest : List Char} : Gap cs ('\x7d' :: rest) → Members first [] cs rest
  | member {first : Bool} {name : String} {t : Tree} {ms : List (String × Tree)}
      {cs cs₁ cs₂ cs₃ cs₄ cs₅ rest : List Char} :
      Separator first cs cs₁ → Gap cs₁ ('"' :: cs₂) → StringBody name.toList cs₂ cs₃ →
      Gap cs₃ (':' :: cs₄) → Spells t cs₄ cs₅ → Members false ms cs₅ rest →
      Members first ((name, t) :: ms) cs rest

end

/-- A text is a document of a tree: a spelling of it, and nothing behind it but white space. -/
def IsDocument (t : Tree) (text : String) : Prop :=
  ∃ rest, Spells t text.toList rest ∧ Gap rest []

end PrimitiveAbi.Json
