import PrimitiveAbi.Proofs.Trace

/-!
# What a run does to memory and to standard output

A call of a primitive that stores changes one word, a call of one of the three text primitives
writes, and no other call does either (`Machine.performs_of_step?`). So after any number of calls a
word of memory is the value of the latest store to it, whichever surface has bound the store
(`Program.word_machine`).
-/

namespace PrimitiveAbi

/-- Where memory holds a string with a NUL behind it, the text is what stands before the first NUL;
a null pointer has the empty text. -/
def Output.IsText : Option (List UInt8) → List UInt8 → Prop
  | none, text => text = []
  | some bytes, text => 0 ∉ text ∧ text ++ [0] <+: bytes ++ [0]

theorem Output.isText_cstring (string : Option (List UInt8)) : IsText string (cstring string) := by
  cases string with
  | none => exact rfl
  | some bytes =>
    induction bytes with
    | nil => exact ⟨List.not_mem_nil, List.prefix_rfl⟩
    | cons b bytes ih =>
      obtain ⟨hmem, hprefix⟩ := ih
      rw [cstring] at hmem hprefix ⊢
      by_cases hb : b = 0
      · subst hb
        exact ⟨List.not_mem_nil, List.prefix_append _ _⟩
      · rw [List.takeWhile_cons_of_pos (by simpa using hb)]
        refine ⟨?_, (List.prefix_cons_inj b).2 hprefix⟩
        rw [List.mem_cons, not_or]
        exact ⟨Ne.symm hb, hmem⟩

/-! ### The primitives with effects -/

namespace Catalog

theorem stores_iff : ∀ p ∈ all, p.kind = .store ↔ p.symbol ∈ ["poke", "set_42"] := by decide

theorem writes_iff : ∀ p ∈ all, (p.kind = .display ∨ p.kind = .displayLine ∨ p.kind = .newline) ↔
    p.symbol ∈ ["display", "display_line", "newline"] := by decide

theorem text_of_symbol : ∀ p ∈ all, (p.symbol ∈ ["display"] → p.kind = .display) ∧
    (p.symbol ∈ ["display_line"] → p.kind = .displayLine) ∧
    (p.symbol ∈ ["newline"] → p.kind = .newline) := by decide

theorem load_of_symbol : ∀ p ∈ all, (p.symbol ∈ ["peek"] → p.kind = .load ∧ p.view = .signed) ∧
    (p.symbol ∈ ["ref"] → p.kind = .load ∧ p.view = .unsigned) := by decide

end Catalog

namespace Primitive

variable {p : Primitive} {arguments : List Argument} {m : Machine} {e : Effect}

/-- What a primitive leaves in memory and what it writes. -/
theorem changes_of_effect? (h : p.effect? arguments m = some e) :
    e.words = (if p.kind = .store then m.words.set (Machine.address (argument arguments 0))
      (.ofInt 64 (m.integer (argument arguments 1))) else m.words) ∧
    e.output = match p.kind with
      | .display => Output.cstring (m.string (argument arguments 0))
      | .displayLine => Output.cstring (m.string (argument arguments 0)) ++ [10]
      | .newline => [10]
      | _ => [] := by
  rw [effect?] at h
  cases hkind : p.kind with
  | binary op =>
    simp only [hkind] at h
    split at h
    · obtain rfl := Option.some.inj h
      exact ⟨rfl, rfl⟩
    · exact nomatch h
  | _ =>
    simp only [hkind, Option.some.injEq] at h
    subst h
    exact ⟨rfl, rfl⟩

theorem result_of_load (hkind : p.kind = .load) (h : p.effect? arguments m = some e)
    {w : BitVec 64} (hw : m.words[Machine.address (argument arguments 0)]? = some w) :
    e.result = some (p.view.toInt w) := by
  simp only [effect?, hkind, hw, Option.some.injEq] at h
  rw [← h]
  rfl

section

variable (hp : p ∈ Catalog.all) (h : p.effect? arguments m = some e)

include hp h

theorem words_of_stores (hs : p.symbol ∈ ["poke", "set_42"]) :
    e.words = m.words.set (Machine.address (argument arguments 0))
      (.ofInt 64 (m.integer (argument arguments 1))) := by
  rw [(changes_of_effect? h).1, if_pos ((Catalog.stores_iff p hp).2 hs)]

theorem words_of_not_stores (hs : p.symbol ∉ ["poke", "set_42"]) : e.words = m.words := by
  rw [(changes_of_effect? h).1, if_neg (mt (Catalog.stores_iff p hp).1 hs)]

theorem result_of_peek (hs : p.symbol ∈ ["peek"]) {w : BitVec 64}
    (hw : m.words[Machine.address (argument arguments 0)]? = some w) :
    e.result = some w.toInt := by
  obtain ⟨hkind, hview⟩ := (Catalog.load_of_symbol p hp).1 hs
  rw [result_of_load hkind h hw, hview]
  rfl

theorem result_of_ref (hs : p.symbol ∈ ["ref"]) {w : BitVec 64}
    (hw : m.words[Machine.address (argument arguments 0)]? = some w) :
    e.result = some (w.toNat : Int) := by
  obtain ⟨hkind, hview⟩ := (Catalog.load_of_symbol p hp).2 hs
  rw [result_of_load hkind h hw, hview]
  rfl

theorem output_of_display (hs : p.symbol ∈ ["display"]) :
    e.output = Output.cstring (m.string (argument arguments 0)) := by
  rw [(changes_of_effect? h).2, (Catalog.text_of_symbol p hp).1 hs]

theorem output_of_displayLine (hs : p.symbol ∈ ["display_line"]) :
    e.output = Output.cstring (m.string (argument arguments 0)) ++ [10] := by
  rw [(changes_of_effect? h).2, (Catalog.text_of_symbol p hp).2.1 hs]

theorem output_of_newline (hs : p.symbol ∈ ["newline"]) : e.output = [10] := by
  rw [(changes_of_effect? h).2, (Catalog.text_of_symbol p hp).2.2 hs]

theorem output_of_silent (hs : p.symbol ∉ ["display", "display_line", "newline"]) :
    e.output = [] := by
  rw [(changes_of_effect? h).2]
  rw [← Catalog.writes_iff p hp] at hs
  split <;> simp_all

end

end Primitive

/-! ### One call -/

namespace Machine

/-- The call stores this value in this word of memory. -/
def Stores (m : Machine) (c : Call) (k : Nat) (v : Int) : Prop :=
  c.ResolvesTo ["poke", "set_42"] ∧ address (argument c.arguments 0) = k ∧
    m.integer (argument c.arguments 1) = v

/-- What a call with this answer does, from the machine before it to the one after it. -/
structure Performs (before : Machine) (c : Call) (a : CallAnswer) (after : Machine) : Prop where
  /-- The words that the answer shows are those after the call. -/
  shown : ∀ words, a.words? = some words → after.words = words
  size : after.words.length = before.words.length
  stored : ∀ k v, before.Stores c k v →
    ∀ w, after.words[k]? = some w → (w.toNat : Int) = v % 2 ^ 64
  elsewhere : ∀ k, (∀ v, ¬ before.Stores c k v) → after.words[k]? = before.words[k]?
  kept : ¬ c.ResolvesTo ["poke", "set_42"] → after.words = before.words
  peek : c.ResolvesTo ["peek"] → ∀ w, before.words[address (argument c.arguments 0)]? = some w →
    a.result? = some w.toInt
  ref : c.ResolvesTo ["ref"] → ∀ w, before.words[address (argument c.arguments 0)]? = some w →
    a.result? = some (w.toNat : Int)
  display : c.ResolvesTo ["display"] →
    Output.IsText (before.string (argument c.arguments 0)) a.output
  displayLine : c.ResolvesTo ["display_line"] →
    ∃ text, Output.IsText (before.string (argument c.arguments 0)) text ∧ a.output = text ++ [10]
  newline : c.ResolvesTo ["newline"] → a.output = [10]
  silent : ¬ c.ResolvesTo ["display", "display_line", "newline"] → a.output = []

theorem performs_of_unresolved {m : Machine} {c : Call} (h : c.binding.resolve? = none)
    (results : List (Option Int)) : m.Performs c .unresolved { m with results } := by
  have hnone : ∀ symbols, ¬ c.ResolvesTo symbols := by simp [Call.ResolvesTo, h]
  exact {
    shown := fun _ h => nomatch h
    size := rfl
    stored := fun k v h => absurd h.1 (hnone _)
    elsewhere := fun _ _ => rfl
    kept := fun _ => rfl
    peek := fun h => absurd h (hnone _)
    ref := fun h => absurd h (hnone _)
    display := fun h => absurd h (hnone _)
    displayLine := fun h => absurd h (hnone _)
    newline := fun h => absurd h (hnone _)
    silent := fun _ => rfl }

theorem performs_of_effect? {m : Machine} {c : Call} {p : Primitive} {e : Effect}
    (hp : c.binding.resolve? = some p) (h : p.effect? c.arguments m = some e)
    (results : List (Option Int)) : m.Performs c (.done p e) { words := e.words, results } := by
  have hall := Binding.mem_of_resolve? hp
  have hresolves : ∀ symbols, c.ResolvesTo symbols ↔ p.symbol ∈ symbols := by
    simp [Call.ResolvesTo, hp]
  have hset (hc : c.ResolvesTo ["poke", "set_42"]) :=
    Primitive.words_of_stores hall h ((hresolves _).1 hc)
  have hkept (hc : ¬ c.ResolvesTo ["poke", "set_42"]) :=
    Primitive.words_of_not_stores hall h (mt (hresolves _).2 hc)
  exact {
    shown := fun words h => Option.some.inj h
    size := by
      by_cases hc : c.ResolvesTo ["poke", "set_42"]
      · exact (congrArg List.length (hset hc)).trans List.length_set
      · exact congrArg List.length (hkept hc)
    stored := by
      rintro k v ⟨hc, rfl, rfl⟩ w hw
      rw [hset hc, List.getElem?_set_self'] at hw
      obtain ⟨-, -, rfl⟩ := Option.map_eq_some_iff.1 hw
      exact toNat_ofInt_eq_emod 64 _
    elsewhere := by
      intro k hk
      by_cases hc : c.ResolvesTo ["poke", "set_42"]
      · rw [hset hc]
        refine List.getElem?_set_ne ?_
        exact fun haddress => hk _ ⟨hc, haddress, rfl⟩
      · rw [hkept hc]
    kept := hkept
    peek := fun hc _ hw => Primitive.result_of_peek hall h ((hresolves _).1 hc) hw
    ref := fun hc _ hw => Primitive.result_of_ref hall h ((hresolves _).1 hc) hw
    display := by
      intro hc
      show Output.IsText _ e.output
      rw [Primitive.output_of_display hall h ((hresolves _).1 hc)]
      exact Output.isText_cstring _
    displayLine := by
      intro hc
      have houtput := Primitive.output_of_displayLine hall h ((hresolves _).1 hc)
      exact ⟨_, Output.isText_cstring _, houtput⟩
    newline := fun hc => Primitive.output_of_newline hall h ((hresolves _).1 hc)
    silent := fun hc => Primitive.output_of_silent hall h (mt (hresolves _).2 hc) }

/-- The step lemma: what a call does is what its answer says. -/
theorem performs_of_step? {m m' : Machine} {c : Call} {a : CallAnswer}
    (h : m.step? c = some (a, m')) : m.Performs c a m' := by
  rw [step?] at h
  split at h
  case h_1 hnone =>
    obtain ⟨rfl, rfl⟩ := Prod.mk.inj (Option.some.inj h)
    exact performs_of_unresolved hnone _
  case h_2 p hp =>
    obtain ⟨e, heffect, he⟩ := Option.map_eq_some_iff.1 h
    obtain ⟨rfl, rfl⟩ := Prod.mk.inj he
    exact performs_of_effect? hp heffect _

end Machine

/-! ### A whole run -/

namespace Program

/-- The call with this number stores this value in this word. -/
def Stores (p : Program) (i k : Nat) (v : Int) : Prop :=
  ∃ c ∈ p.calls[i]?, (p.machine i).Stores c k v

/-- Of the first calls, this is the latest one that stores in the word. -/
structure LatestStore (p : Program) (n k i : Nat) (v : Int) : Prop where
  before : i < n
  stores : p.Stores i k v
  latest : ∀ j < n, i < j → ∀ v', ¬ p.Stores j k v'

theorem performs_machine {p : Program} {i : Nat} {c : Call} {a : CallAnswer}
    (hc : p.calls[i]? = some c) (ha : p.run.1[i]? = some a) :
    (p.machine i).Performs c a (p.machine (i + 1)) :=
  Machine.performs_of_step? (p.step?_machine hc ha)

/-- A call that is answered, by number. -/
theorem exists_performs {p : Program} {i : Nat} (hi : i < p.run.1.length) :
    ∃ c a, p.calls[i]? = some c ∧ (p.machine i).Performs c a (p.machine (i + 1)) := by
  have hlt := Nat.lt_of_lt_of_le hi p.length_answers_le
  exact ⟨_, _, List.getElem?_eq_getElem hlt,
    performs_machine (List.getElem?_eq_getElem hlt) (List.getElem?_eq_getElem hi)⟩

theorem length_words_machine (p : Program) {n : Nat} (hn : n ≤ p.run.1.length) :
    (p.machine n).words.length = p.memory.length := by
  induction n with
  | zero => rw [machine_zero]
  | succ n ih =>
    obtain ⟨c, a, -, hperforms⟩ := exists_performs hn
    rw [hperforms.size, ih (Nat.le_of_succ_le hn)]

section

variable {p : Program} {n k i : Nat} {v : Int}

theorem word_of_stores (hi : i < p.run.1.length) (h : p.Stores i k v) {w : BitVec 64}
    (hw : (p.machine (i + 1)).words[k]? = some w) : (w.toNat : Int) = v % 2 ^ 64 := by
  obtain ⟨c, a, hc, hperforms⟩ := exists_performs hi
  obtain ⟨d, hd, hstores⟩ := h
  obtain rfl : c = d := Option.some.inj (hc.symm.trans hd)
  exact hperforms.stored k v hstores w hw

theorem word_of_not_stores (hi : i < p.run.1.length) (h : ∀ v, ¬ p.Stores i k v) :
    (p.machine (i + 1)).words[k]? = (p.machine i).words[k]? := by
  obtain ⟨c, a, hc, hperforms⟩ := exists_performs hi
  exact hperforms.elsewhere k fun v hv => h v ⟨c, hc, hv⟩

theorem LatestStore.eq_of_stores (h : p.LatestStore (n + 1) k i v) {u : Int}
    (hn : p.Stores n k u) : i = n := by
  rcases Nat.lt_or_eq_of_le (Nat.le_of_lt_succ h.before) with hi | hi
  · exact absurd hn (h.latest n (Nat.lt_succ_self n) hi u)
  · exact hi

theorem LatestStore.of_succ (h : p.LatestStore (n + 1) k i v) (hn : ∀ u, ¬ p.Stores n k u) :
    p.LatestStore n k i v := by
  have hne : i ≠ n := fun hi => hn v (hi ▸ h.stores)
  exact {
    before := Nat.lt_of_le_of_ne (Nat.le_of_lt_succ h.before) hne
    stores := h.stores
    latest := fun j hj => h.latest j (Nat.lt_succ_of_lt hj) }

end

/-- A word of memory is the value of the latest store to it, or what it was at the start. -/
theorem word_machine (p : Program) {n k : Nat} (hn : n ≤ p.run.1.length) {initial : BitVec 64}
    (hk : p.memory[k]? = some initial) :
    ∃ w, (p.machine n).words[k]? = some w ∧
      (∀ i v, p.LatestStore n k i v → (w.toNat : Int) = v % 2 ^ 64) ∧
      ((∀ i < n, ∀ v, ¬ p.Stores i k v) → w = initial) := by
  induction n with
  | zero =>
    refine ⟨initial, by rwa [machine_zero], ?_, fun _ => rfl⟩
    intro i v h
    exact absurd h.before (Nat.not_lt_zero i)
  | succ n ih =>
    by_cases hstores : ∃ v, p.Stores n k v
    · -- the call before is the latest store, whatever the word was
      obtain ⟨v, hv⟩ := hstores
      have hlt : k < (p.machine (n + 1)).words.length := by
        rw [p.length_words_machine hn]
        exact (List.getElem?_eq_some_iff.1 hk).1
      have hw := List.getElem?_eq_getElem hlt
      refine ⟨_, hw, ?_, fun h => absurd hv (h n (Nat.lt_succ_self n) v)⟩
      intro i u hu
      obtain rfl := hu.eq_of_stores hv
      exact word_of_stores hn hu.stores hw
    · have hnone : ∀ v, ¬ p.Stores n k v := not_exists.1 hstores
      obtain ⟨w, hw, hlatest, hinitial⟩ := ih (Nat.le_of_succ_le hn)
      refine ⟨w, by rw [word_of_not_stores hn hnone, hw], ?_, ?_⟩
      · exact fun i v hv => hlatest i v (hv.of_succ hnone)
      · exact fun h => hinitial fun i hi => h i (Nat.lt_succ_of_lt hi)

end Program

/-- Memory and standard output are changed by stores and by text primitives only. After any number
of answered calls there are as many words as at the start, and each is the value of the latest store
to it, modulo its size, or what it was at the start; and every answered call does what its primitive
does and no more. -/
theorem effects_of_stores_and_text (p : Program) :
    (∀ n ≤ p.run.1.length, (p.machine n).words.length = p.memory.length ∧
      ∀ k initial, p.memory[k]? = some initial → ∃ w, (p.machine n).words[k]? = some w ∧
        (∀ i v, p.LatestStore n k i v → (w.toNat : Int) = v % 2 ^ 64) ∧
        ((∀ i < n, ∀ v, ¬ p.Stores i k v) → w = initial)) ∧
    ∀ i c a, p.calls[i]? = some c → p.run.1[i]? = some a →
      (p.machine i).Performs c a (p.machine (i + 1)) :=
  ⟨fun _ hn => ⟨p.length_words_machine hn, fun _ _ hk => p.word_machine hn hk⟩,
    fun _ _ _ hc ha => Program.performs_machine hc ha⟩

/-- Both surfaces store in one word: `set*` stores last, modulo the size of the word, and `peek`
reads it as signed. -/
theorem effects_of_stores_and_text_shared :
    ∃ p : Program, p.memory = [7, 8] ∧ p.LatestStore 3 1 2 18446744073709551614 ∧
      ∃ w a, (p.machine 3).words[1]? = some w ∧ (w.toNat : Int) = 18446744073709551614 % 2 ^ 64 ∧
        p.run.1[3]? = some a ∧ a.result? = some w.toInt ∧ a.output = [] := by
  let p : Program := { memory := [7, 8], calls := [
    ⟨.bySymbol "poke", [.word 1, .number 3]⟩,
    ⟨.byName .symbolic "poke", [.word 1, .number 4]⟩,
    ⟨.byName .symbolic "set*", [.word 1, .number 18446744073709551614]⟩,
    ⟨.byName .spelled "peek", [.word 1]⟩] }
  have hlatest : p.LatestStore 3 1 2 18446744073709551614 := {
    before := by decide
    stores := ⟨_, rfl, by decide, rfl, rfl⟩
    latest := by omega }
  obtain ⟨hwords, hperforms⟩ := effects_of_stores_and_text p
  obtain ⟨w, hw, hvalue, -⟩ := (hwords 3 (by decide)).2 1 8 rfl
  have hpeek := hperforms 3 _ _ rfl rfl
  exact ⟨p, rfl, hlatest, w, _, hw, hvalue 2 _ hlatest, rfl, hpeek.peek (by decide) w hw,
    hpeek.silent (by decide)⟩

end PrimitiveAbi
