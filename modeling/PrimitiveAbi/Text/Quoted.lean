import PrimitiveAbi.Text.Hex
import PrimitiveAbi.Text.Visible

/-!
# Quoted text

The form in which a message shows a text it was given: between double quotes, with short escapes
for the quote, the backslash, tab, line feed, carriage return and NUL, and `\u{…}` with the code
point in hexadecimal for every other character that is not visible. The quoted text can be read
back wherever it stands, since no quote inside it stands without a backslash.
-/

namespace PrimitiveAbi.Text.Quoted

/-! ### Writing -/

/-- A character as it stands inside the quotes. -/
def encodeChar (c : Char) : List Char :=
  if c = '"' then ['\\', '"']
  else if c = '\\' then ['\\', '\\']
  else if c = '\t' then ['\\', 't']
  else if c = '\n' then ['\\', 'n']
  else if c = '\r' then ['\\', 'r']
  else if c = Char.ofNat 0 then ['\\', '0']
  else if isVisible c then [c]
  else '\\' :: 'u' :: '\x7b' :: Nat.toDigits 16 c.toNat ++ ['\x7d']

/-- The text between the quotes. -/
def encode (cs : List Char) : List Char :=
  cs.flatMap encodeChar

@[simp] theorem encode_nil : encode [] = [] := rfl

@[simp] theorem encode_cons (c : Char) (cs : List Char) :
    encode (c :: cs) = encodeChar c ++ encode cs := rfl

/-! ### Reading -/

/-- The character of a one-letter escape. -/
def escaped? : Char → Option Char
  | '"' => some '"'
  | '\\' => some '\\'
  | 't' => some '\t'
  | 'n' => some '\n'
  | 'r' => some '\r'
  | '0' => some (Char.ofNat 0)
  | _ => none

/-- Appends hexadecimal digits to a number up to the closing brace; what follows it comes along. -/
def readHex (n : Nat) : List Char → Option (Nat × List Char)
  | [] => none
  | c :: cs =>
      if c = '\x7d' then some (n, cs)
      else (hexDigit? c).bind fun d => readHex (16 * n + d) cs

/-- The character of an escape, from behind the backslash, and what follows. -/
def readEscape : List Char → Option (Char × List Char)
  | 'u' :: '\x7b' :: cs => (readHex 0 cs).map fun (n, rest) => (Char.ofNat n, rest)
  | c :: cs => (escaped? c).map (·, cs)
  | [] => none

theorem length_readHex {n m : Nat} {cs rest : List Char} (h : readHex n cs = some (m, rest)) :
    rest.length < cs.length := by
  induction cs generalizing n with
  | nil => simp [readHex] at h
  | cons c cs ih =>
    simp only [readHex] at h
    split at h
    · simp only [Option.some.injEq, Prod.mk.injEq] at h
      simp [h.2]
    · obtain ⟨d, -, hd⟩ := Option.bind_eq_some_iff.1 h
      have := ih hd
      simp only [List.length_cons]; omega

theorem length_readEscape {c : Char} {cs rest : List Char} (h : readEscape cs = some (c, rest)) :
    rest.length < cs.length := by
  unfold readEscape at h
  split at h
  · obtain ⟨⟨n, rest'⟩, hr, he⟩ := Option.map_eq_some_iff.1 h
    have := length_readHex hr
    simp only [Prod.mk.injEq] at he
    simp only [← he.2, List.length_cons]; omega
  · obtain ⟨d, -, he⟩ := Option.map_eq_some_iff.1 h
    simp only [Prod.mk.injEq] at he
    simp [he.2]
  · simp at h

/-- The text in quotes, from behind the opening quote, and what follows the closing one. -/
def read (cs : List Char) : Option (List Char × List Char) :=
  match cs with
  | [] => none
  | c :: rest =>
      if c = '"' then some ([], rest)
      else if c = '\\' then
        match h : readEscape rest with
        | none => none
        | some (d, rest') =>
            have := length_readEscape h
            (read rest').map fun (text, rest) => (d :: text, rest)
      else (read rest).map fun (text, rest) => (c :: text, rest)
termination_by cs.length
decreasing_by all_goals simp only [List.length_cons]; omega

/-! ### What is written is read -/

theorem read_plain {c : Char} {cs : List Char} (hq : c ≠ '"') (hb : c ≠ '\\') :
    read (c :: cs) = (read cs).map fun (text, rest) => (c :: text, rest) := by
  rw [read]; simp [hq, hb]

theorem read_escape {c : Char} {cs rest : List Char} (h : readEscape cs = some (c, rest)) :
    read ('\\' :: cs) = (read rest).map fun (text, rest) => (c :: text, rest) := by
  rw [read]
  simp only [Char.reduceEq, ↓reduceIte]
  split
  · simp_all
  · rename_i he
    rw [h] at he
    simp only [Option.some.injEq, Prod.mk.injEq] at he
    obtain ⟨rfl, rfl⟩ := he
    rfl

theorem readHex_digitChar {d : Nat} (n : Nat) (hd : d < 16) (cs : List Char) :
    readHex n (Nat.digitChar d :: cs) = readHex (16 * n + d) cs := by
  have hb : Nat.digitChar d ≠ '\x7d' := by revert d; decide
  simp [readHex, hb, hexDigit?_digitChar d hd]

/-- The digits that a number is written with are read as the number. -/
theorem readHex_toDigits (k : Nat) (cs : List Char) :
    readHex 0 (Nat.toDigits 16 k ++ cs) = readHex k cs := by
  induction k using Nat.strongRecOn generalizing cs with
  | ind k ih =>
    by_cases hk : k < 16
    · rw [Nat.toDigits_of_lt_base hk, List.singleton_append, readHex_digitChar 0 hk]
      simp
    · have hm : k % 16 < 16 := by omega
      have hd : 16 * (k / 16) + k % 16 = k := by omega
      rw [Nat.toDigits_of_base_le (by decide) (by omega), List.append_assoc, ih _ (by omega),
        List.singleton_append, readHex_digitChar _ hm, hd]

theorem readEscape_code (c : Char) (cs : List Char) :
    readEscape ('u' :: '\x7b' :: Nat.toDigits 16 c.toNat ++ '\x7d' :: cs) = some (c, cs) := by
  simp [readEscape, readHex_toDigits, readHex]

theorem read_encodeChar (c : Char) (cs : List Char) :
    read (encodeChar c ++ cs) = (read cs).map fun (text, rest) => (c :: text, rest) := by
  unfold encodeChar
  iterate 6 (split; · subst_vars; exact read_escape rfl)
  split
  · exact read_plain ‹_› ‹_›
  · simp only [List.cons_append, List.append_assoc]
    exact read_escape (readEscape_code c cs)

/-- A quoted text is read as what it shows. -/
theorem read_encode (s rest : List Char) : read (encode s ++ '"' :: rest) = some (s, rest) := by
  induction s with
  | nil => simp [read]
  | cons c s ih => simp [read_encodeChar, List.append_assoc, ih]

end PrimitiveAbi.Text.Quoted

namespace PrimitiveAbi.Text

/-- The quoted form of a text. -/
def quote (s : String) : String :=
  String.ofList ('"' :: Quoted.encode s.toList ++ ['"'])

theorem toList_quote (s : String) : (quote s).toList = '"' :: Quoted.encode s.toList ++ ['"'] := by
  simp [quote]

end PrimitiveAbi.Text
