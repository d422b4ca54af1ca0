import PrimitiveAbi.Document.Reader
import PrimitiveAbi.Surface

/-!
# Readers of values without parts

Texts, flags, integers of 32 bits, notes and surface filters. Where a value of another type stands,
the reader says which; for that it reads scalars in full, and of arrays and objects the bracket. A
surface filter is written by its name, or as an object with that name as its one key and null as its
value.
-/

namespace PrimitiveAbi.Document

open Json

/-- What stands at a character and the text behind it. -/
def found (c : Char) (rest : List Char) : Except Fault Found :=
  if c = 'n' then
    match literal ['u', 'l', 'l'] rest with
    | .error e => .error e
    | .ok _ => .ok .null
  else if c = 't' then
    match literal ['r', 'u', 'e'] rest with
    | .error e => .error e
    | .ok _ => .ok (.boolean true)
  else if c = 'f' then
    match literal ['a', 'l', 's', 'e'] rest with
    | .error e => .error e
    | .ok _ => .ok (.boolean false)
  else if opensNumber c then
    match readNumber (c :: rest) with
    | .error e => .error e
    | .ok (number, _) => .ok number.found
  else if c = '"' then
    match readString rest with
    | .error e => .error e
    | .ok (text, _) => .ok (.text (String.ofList text))
  else if c = '[' then .ok .sequence
  else if c = '\x7b' then .ok .map
  else .error .malformed

/-- The fault of a value that is not of the expected type. -/
def wrongType (expected : String) (c : Char) (rest : List Char) : Fault :=
  match found c rest with
  | .error e => e
  | .ok what => .mismatch (.wrongType what expected)

/-- A text. -/
def readText (cs : List Char) : Except Fault (String × List Char) :=
  match next cs with
  | .error e => .error e
  | .ok (c, rest) =>
      if c = '"' then
        match readString rest with
        | .error e => .error e
        | .ok (text, rest) => .ok (String.ofList text, rest)
      else .error (wrongType "a string" c rest)

/-- A truth value. -/
def readFlag (cs : List Char) : Except Fault (Bool × List Char) :=
  match next cs with
  | .error e => .error e
  | .ok (c, rest) =>
      if c = 't' then
        match literal ['r', 'u', 'e'] rest with
        | .error e => .error e
        | .ok rest => .ok (true, rest)
      else if c = 'f' then
        match literal ['a', 'l', 's', 'e'] rest with
        | .error e => .error e
        | .ok rest => .ok (false, rest)
      else .error (wrongType "a boolean" c rest)

/-- The integer of 32 bits that a number is. -/
def nat32 : Number → Except Fault UInt32
  | .natural n =>
      if n < UInt32.size then .ok (UInt32.ofNat n) else .error (.mismatch (.outOfRange n "u32"))
  | .negative n => .error (.mismatch (.outOfRange (-(n : Int)) "u32"))
  | .real x => .error (.mismatch (.wrongType (.real x) "u32"))

/-- An integer of 32 bits. -/
def readNat32 (cs : List Char) : Except Fault (UInt32 × List Char) :=
  match next cs with
  | .error e => .error e
  | .ok (c, rest) =>
      if opensNumber c then
        match readNumber (c :: rest) with
        | .error e => .error e
        | .ok (number, rest) =>
            match nat32 number with
            | .error e => .error e
            | .ok n => .ok (n, rest)
      else .error (wrongType "u32" c rest)

/-- The value null, and nothing else. -/
def readUnit (cs : List Char) : Except Fault (List Char) :=
  match next cs with
  | .error e => .error e
  | .ok (c, rest) =>
      if c = 'n' then literal ['u', 'l', 'l'] rest else .error (wrongType "unit" c rest)

/-- A text or null. -/
def readNote (cs : List Char) : Except Fault (Option String × List Char) :=
  match next cs with
  | .error e => .error e
  | .ok (c, rest) =>
      if c = 'n' then
        match literal ['u', 'l', 'l'] rest with
        | .error e => .error e
        | .ok rest => .ok (none, rest)
      else
        match readText cs with
        | .error e => .error e
        | .ok (text, rest) => .ok (some text, rest)

/-- The name of a filter, from behind its opening quote. -/
def filterName (cs : List Char) : Except Fault (SurfaceFilter × List Char) :=
  match readString cs with
  | .error e => .error e
  | .ok (text, rest) =>
      match SurfaceFilter.ofName? (String.ofList text) with
      | some filter => .ok (filter, rest)
      | none =>
          .error (.mismatch
            (.unknownVariant (String.ofList text) (SurfaceFilter.every.map SurfaceFilter.name)))

/-- A filter as the key of an object, from behind the opening brace. A key is in quotes. -/
def filterKey (cs : List Char) : Except Fault (SurfaceFilter × List Char) :=
  match next cs with
  | .error e => .error e
  | .ok (c, rest) =>
      if c = '"' then
        match filterName rest with
        | .error e => .error e
        | .ok (filter, rest) =>
            match colon rest with
            | .error e => .error e
            | .ok rest =>
                match readUnit rest with
                | .error e => .error e
                | .ok rest =>
                    match next rest with
                    | .error e => .error e
                    | .ok (c, rest) =>
                        if c = '\x7d' then .ok (filter, rest) else .error .malformed
      else .error .malformed

/-- A surface filter. -/
def readFilter (cs : List Char) : Except Fault (SurfaceFilter × List Char) :=
  match next cs with
  | .error e => .error e
  | .ok (c, rest) =>
      if c = '"' then filterName rest
      else if c = '\x7b' then filterKey rest
      else .error .malformed

/-! ### Each takes at least one character -/

theorem length_readText {cs rest : List Char} {v : String} (h : readText cs = .ok (v, rest)) :
    rest.length < cs.length := by
  unfold readText at h
  split at h
  · simp at h
  rename_i hn
  have := length_next hn
  split at h
  · split at h
    · simp at h
    rename_i hs
    have := length_readString hs
    simp only [Except.ok.injEq, Prod.mk.injEq] at h
    rw [← h.2]; omega
  · simp at h

theorem length_readFlag {cs rest : List Char} {v : Bool} (h : readFlag cs = .ok (v, rest)) :
    rest.length < cs.length := by
  unfold readFlag at h
  split at h
  · simp at h
  rename_i hn
  have := length_next hn
  split at h
  · split at h
    · simp at h
    rename_i hl
    have := length_literal_le hl
    simp only [Except.ok.injEq, Prod.mk.injEq] at h
    rw [← h.2]; omega
  split at h
  · split at h
    · simp at h
    rename_i hl
    have := length_literal_le hl
    simp only [Except.ok.injEq, Prod.mk.injEq] at h
    rw [← h.2]; omega
  · simp at h

theorem length_readNat32 {cs rest : List Char} {v : UInt32} (h : readNat32 cs = .ok (v, rest)) :
    rest.length < cs.length := by
  unfold readNat32 at h
  split at h
  · simp at h
  rename_i hn
  have := length_next hn
  split at h
  · split at h
    · simp at h
    rename_i hs
    have := length_readNumber hs
    simp only [List.length_cons] at this
    split at h
    · simp at h
    simp only [Except.ok.injEq, Prod.mk.injEq] at h
    rw [← h.2]; omega
  · simp at h

theorem length_readUnit {cs rest : List Char} (h : readUnit cs = .ok rest) :
    rest.length < cs.length := by
  unfold readUnit at h
  split at h
  · simp at h
  rename_i hn
  have := length_next hn
  split at h
  · have := length_literal_le h; omega
  · simp at h

theorem length_readNote {cs rest : List Char} {v : Option String}
    (h : readNote cs = .ok (v, rest)) : rest.length < cs.length := by
  unfold readNote at h
  split at h
  · simp at h
  rename_i hn
  have := length_next hn
  split at h
  · split at h
    · simp at h
    rename_i hl
    have := length_literal_le hl
    simp only [Except.ok.injEq, Prod.mk.injEq] at h
    rw [← h.2]; omega
  · split at h
    · simp at h
    rename_i ht
    simp only [Except.ok.injEq, Prod.mk.injEq] at h
    rw [← h.2]; exact length_readText ht

theorem length_filterName {cs rest : List Char} {v : SurfaceFilter}
    (h : filterName cs = .ok (v, rest)) : rest.length < cs.length := by
  unfold filterName at h
  split at h
  · simp at h
  rename_i hs
  split at h
  · simp only [Except.ok.injEq, Prod.mk.injEq] at h
    rw [← h.2]; exact length_readString hs
  · simp at h

theorem length_filterKey {cs rest : List Char} {v : SurfaceFilter}
    (h : filterKey cs = .ok (v, rest)) : rest.length < cs.length := by
  unfold filterKey at h
  split at h
  · simp at h
  rename_i hn
  have := length_next hn
  split at h
  · split at h
    · simp at h
    rename_i hf
    have := length_filterName hf
    split at h
    · simp at h
    rename_i hc
    have := length_colon hc
    split at h
    · simp at h
    rename_i hu
    have := length_readUnit hu
    split at h
    · simp at h
    rename_i hn'
    have := length_next hn'
    split at h
    · simp only [Except.ok.injEq, Prod.mk.injEq] at h
      rw [← h.2]; omega
    · simp at h
  · simp at h

theorem length_readFilter {cs rest : List Char} {v : SurfaceFilter}
    (h : readFilter cs = .ok (v, rest)) : rest.length < cs.length := by
  unfold readFilter at h
  split at h
  · simp at h
  rename_i hn
  have := length_next hn
  split at h
  · have := length_filterName h; omega
  split at h
  · have := length_filterKey h; omega
  · simp at h

end PrimitiveAbi.Document
