import PrimitiveAbi.Json.Number

/-!
# Skipped values

A value that nobody uses is read past, whatever it holds and however deep it nests. The reader keeps
the brackets that are open and stands either before a value or behind one; each step takes at least
one character.
-/

namespace PrimitiveAbi.Json

/-- A bracket that is open. -/
inductive Bracket where
  | array
  | object
  deriving DecidableEq, Repr

/-- What follows a colon. -/
def colon (cs : List Char) : Except Fault (List Char) :=
  match next cs with
  | .error e => .error e
  | .ok (c, rest) => if c = ':' then .ok rest else .error .malformed

/-- What follows a key that is skipped and its colon. -/
def skipKey (cs : List Char) : Except Fault (List Char) :=
  match next cs with
  | .error e => .error e
  | .ok (c, rest) =>
      if c = '"' then
        match skipString rest with
        | .error e => .error e
        | .ok rest => colon rest
      else .error .malformed

/-- What follows a value without parts that opens with a character. -/
def skipScalar (c : Char) (rest : List Char) : Except Fault (List Char) :=
  if c = '"' then skipString rest
  else if c = 'n' then literal ['u', 'l', 'l'] rest
  else if c = 't' then literal ['r', 'u', 'e'] rest
  else if c = 'f' then literal ['a', 'l', 's', 'e'] rest
  else if opensNumber c then skipNumber (c :: rest)
  else .error .malformed

theorem length_colon {cs rest : List Char} (h : colon cs = .ok rest) :
    rest.length < cs.length := by
  unfold colon at h
  split at h
  · simp at h
  · rename_i hn
    have := length_next hn
    split at h
    · simp only [Except.ok.injEq] at h
      rw [← h]; exact this
    · simp at h

theorem length_skipKey {cs rest : List Char} (h : skipKey cs = .ok rest) :
    rest.length < cs.length := by
  unfold skipKey at h
  split at h
  · simp at h
  · rename_i hn
    have := length_next hn
    split at h
    · split at h
      · simp at h
      · rename_i hs
        have := length_skipString hs
        have := length_colon h
        omega
    · simp at h

theorem length_skipScalar {c : Char} {cs rest : List Char} (h : skipScalar c cs = .ok rest) :
    rest.length ≤ cs.length := by
  unfold skipScalar at h
  split at h
  · have := length_skipString h; omega
  split at h
  · exact length_literal_le h
  split at h
  · exact length_literal_le h
  split at h
  · exact length_literal_le h
  split at h
  · have := length_skipNumber h
    simp only [List.length_cons] at this; omega
  · simp at h

mutual

/-- What follows a value and the brackets around it, from before the value. -/
def skipValue (around : List Bracket) (cs : List Char) : Except Fault (List Char) :=
  match h : next cs with
  | .error e => .error e
  | .ok (c, rest) =>
      have := length_next h
      if c = '[' then
        match h' : next rest with
        | .error e => .error e
        | .ok (d, after) =>
            have := length_next h'
            if d = ']' then skipRest around after else skipValue (.array :: around) rest
      else if c = '\x7b' then
        match h' : next rest with
        | .error e => .error e
        | .ok (d, after) =>
            have := length_next h'
            if d = '\x7d' then skipRest around after
            else
              match hk : skipKey rest with
              | .error e => .error e
              | .ok rest' =>
                  have := length_skipKey hk
                  skipValue (.object :: around) rest'
      else
        match hs : skipScalar c rest with
        | .error e => .error e
        | .ok rest' =>
            have := length_skipScalar hs
            skipRest around rest'
termination_by cs.length

/-- What follows the brackets around a value, from behind the value. -/
def skipRest (around : List Bracket) (cs : List Char) : Except Fault (List Char) :=
  match around with
  | [] => .ok cs
  | .array :: outer =>
      match h : next cs with
      | .error e => .error e
      | .ok (c, rest) =>
          have := length_next h
          if c = ',' then skipValue (.array :: outer) rest
          else if c = ']' then skipRest outer rest
          else .error .malformed
  | .object :: outer =>
      match h : next cs with
      | .error e => .error e
      | .ok (c, rest) =>
          have := length_next h
          if c = ',' then
            match hk : skipKey rest with
            | .error e => .error e
            | .ok rest' =>
                have := length_skipKey hk
                skipValue (.object :: outer) rest'
          else if c = '\x7d' then skipRest outer rest
          else .error .malformed
termination_by cs.length

end

/-- What follows a value. -/
def skip (cs : List Char) : Except Fault (List Char) := skipValue [] cs

mutual

theorem length_skipValue {around : List Bracket} {cs rest : List Char}
    (h : skipValue around cs = .ok rest) : rest.length < cs.length := by
  rw [skipValue] at h
  split at h
  · simp at h
  rename_i hn
  have := length_next hn
  split at h
  · split at h
    · simp at h
    rename_i hn'
    have := length_next hn'
    split at h
    · have := length_skipRest_le h; omega
    · have := length_skipValue h; omega
  split at h
  · split at h
    · simp at h
    rename_i hn'
    have := length_next hn'
    split at h
    · have := length_skipRest_le h; omega
    split at h
    · simp at h
    rename_i hk
    have := length_skipKey hk
    have := length_skipValue h
    omega
  · split at h
    · simp at h
    rename_i hs
    have := length_skipScalar hs
    have := length_skipRest_le h
    omega
termination_by cs.length

theorem length_skipRest_le {around : List Bracket} {cs rest : List Char}
    (h : skipRest around cs = .ok rest) : rest.length ≤ cs.length := by
  rw [skipRest.eq_def] at h
  split at h
  · simp_all
  · split at h
    · simp at h
    rename_i hn
    have := length_next hn
    split at h
    · have := length_skipValue h; omega
    split at h
    · have := length_skipRest_le h; omega
    · simp at h
  · split at h
    · simp at h
    rename_i hn
    have := length_next hn
    split at h
    · split at h
      · simp at h
      rename_i hk
      have := length_skipKey hk
      have := length_skipValue h
      omega
    split at h
    · have := length_skipRest_le h; omega
    · simp at h
termination_by cs.length

end

theorem length_skip {cs rest : List Char} (h : skip cs = .ok rest) : rest.length < cs.length :=
  length_skipValue h

end PrimitiveAbi.Json
