import Mathlib.Data.List.Basic
import TripleStore.Proofs.NTriples.Parser
import TripleStore.Proofs.Token.Local

/-!
# Strings in three quotes

A string in three quotes may hold quotes.  One or two of them stand for themselves wherever they are;
of a longer run the scanner takes the last three for the end, so that the value of the string may end
with a run of any length.  Other bytes stand for themselves too, but a backslash has to be doubled.

* `doubled`: a value with its backslashes doubled.
* `RunsLast`: every run of three or more quotes stands at the end.
* `Scanner.stringBody_run`, `Scanner.stringBody_doubled`: the body of a string up to its end.
* `Lexer.long_string_is_read`: **a value with doubled backslashes is read back from between three
  quotes.**
-/

namespace TripleStore

/-- A text with every backslash doubled. -/
def doubled (v : Text) : Text :=
  v.flatMap fun b => if b = Ascii.backslash then [Ascii.backslash, Ascii.backslash] else [b]

/-- Every run of three or more bytes `q` stands at the very end of a text: behind three of them there
are only more. -/
def RunsLast (q : UInt8) (v : Text) : Prop :=
  ∀ before after, v = before ++ q :: q :: q :: after → ∀ b ∈ after, b = q

variable {q b : UInt8} {v rest : Text}

theorem doubled_cons (b : UInt8) (v : Text) : doubled (b :: v) =
    (if b = Ascii.backslash then [Ascii.backslash, Ascii.backslash] else [b]) ++ doubled v := by
  rw [doubled, List.flatMap_cons, doubled]

theorem doubled_cons_of_ne (h : b ≠ Ascii.backslash) (v : Text) : doubled (b :: v) = b :: doubled v := by
  rw [doubled_cons, if_neg h, List.singleton_append]

theorem doubled_replicate (hq : q ≠ Ascii.backslash) (k : ℕ) :
    doubled (List.replicate k q) = List.replicate k q := by
  induction k with
  | zero => rfl
  | succ k ih => rw [List.replicate_succ, doubled_cons_of_ne hq, ih]

/-- What a text ends with shows whether its runs stand at the end. -/
theorem runsLast_iff_tails :
    RunsLast q v ↔ ∀ s ∈ v.tails, [q, q, q] <+: s → ∀ b ∈ s, b = q := by
  constructor
  · intro h s hs hprefix b hb
    obtain ⟨before, hv⟩ := (List.mem_tails s v).mp hs
    obtain ⟨after, rfl⟩ := hprefix
    rcases List.mem_append.mp hb with hb | hb
    · exact List.eq_of_mem_replicate (n := 3) hb
    · exact h before after hv.symm b hb
  · rintro h before after rfl b hb
    have htail : q :: q :: q :: after ∈ (before ++ q :: q :: q :: after).tails :=
      (List.mem_tails _ _).mpr (List.suffix_append _ _)
    exact h _ htail ⟨after, rfl⟩ b (by simp [hb])

instance : Decidable (RunsLast q v) := decidable_of_iff _ runsLast_iff_tails.symm

theorem RunsLast.tail (h : RunsLast q (b :: v)) : RunsLast q v :=
  fun before after hv => h (b :: before) after (by rw [hv, List.cons_append])

namespace Scanner

/-! ### Runs of quotes -/

theorem runLength_replicate (q : UInt8) (k : ℕ) (rest : Text) :
    runLength q (List.replicate k q ++ rest) = k + runLength q rest := by
  induction k with
  | zero => rw [List.replicate_zero, List.nil_append, Nat.zero_add]
  | succ k ih =>
    rw [List.replicate_succ, List.cons_append, runLength, List.takeWhile_cons, beq_self_eq_true,
      if_pos rfl, List.length_cons, ← runLength, ih, Nat.add_right_comm]

theorem runLength_eq_zero (h : rest.head? ≠ some q) : runLength q rest = 0 := by
  cases rest with
  | nil => rfl
  | cons b rest =>
    have hb : b ≠ q := fun heq => h (congrArg some heq)
    rw [runLength, List.takeWhile_cons, beq_false_of_ne hb]
    rfl

/-- In front of a byte that is no quote a run is not longer than it was before the doubling. -/
theorem runLength_doubled_of_ne (hq : q ≠ Ascii.backslash) (hb : b ≠ q) (v rest : Text) :
    runLength q (doubled (b :: v) ++ rest) = 0 := by
  refine runLength_eq_zero fun h => ?_
  rw [doubled_cons] at h
  split_ifs at h with hback
  · exact hq (Option.some.inj h).symm
  · exact hb (Option.some.inj h)

/-- Behind a quote that is not in the last run there is at most one more. -/
theorem runLength_doubled_le (hq : q ≠ Ascii.backslash) (hv : RunsLast q (q :: v))
    (hother : ∃ b ∈ v, b ≠ q) (rest : Text) : runLength q (doubled v ++ rest) ≤ 1 := by
  obtain ⟨b, hb, hne⟩ := hother
  match v with
  | c :: v =>
    by_cases hc : c = q
    swap
    · rw [runLength_doubled_of_ne hq hc]
      exact Nat.zero_le 1
    subst hc
    match v with
    | [] => exact absurd (List.mem_singleton.mp hb) hne
    | d :: v =>
      by_cases hd : d = c
      · subst hd
        -- three quotes in a row are the last run, and `b` stands behind them
        simp only [List.mem_cons] at hb
        exact absurd (hv [] v rfl b ((hb.resolve_left hne).resolve_left hne)) hne
      · have hrun := runLength_doubled_of_ne hq hd v rest
        rw [doubled_cons_of_ne hq, List.cons_append, ← List.singleton_append,
          show [c] = List.replicate 1 c from rfl, runLength_replicate, hrun]

/-! ### The body of a string -/

/-- The last run of quotes ends a string; all but three of them belong to it. -/
theorem stringBody_run (hrest : rest.head? ≠ some q) (n k : ℕ) :
    stringBody q true 0 n (List.replicate (k + 3) q ++ rest)
      = .ok (List.replicate k q, n + (k + 3)) := by
  have hrun : runLength q (List.replicate (k + 2) q ++ rest) = k + 2 := by
    rw [runLength_replicate, runLength_eq_zero hrest, Nat.add_zero]
  rw [List.replicate_succ, List.cons_append, stringBody.eq_def]
  simp only [hrun]
  rw [if_pos ⟨trivial, trivial, Nat.le_add_left 2 k⟩, Nat.add_sub_cancel, Nat.add_assoc]

/-- A byte that is no backslash and does not end the string stands for itself. -/
theorem stringBody_byte (hback : b ≠ Ascii.backslash) (hopen : b = q → runLength q rest ≤ 1) {n : ℕ}
    {value : Text} {size : ℕ} (h : stringBody q true 0 (n + 1) rest = .ok (value, size)) :
    stringBody q true 0 n (b :: rest) = .ok (b :: value, size) := by
  have hend : ¬ (True ∧ b = q ∧ 2 ≤ runLength q rest) := fun hend => by
    have := hopen hend.2.1
    omega
  rw [stringBody.eq_def]
  simp only [not_true_eq_false, false_and, if_false, hback, if_neg hend, h]
  rfl

/-- Two backslashes stand for one. -/
theorem stringBody_backslash (hq : q ≠ Ascii.backslash) {n : ℕ} {value : Text} {size : ℕ}
    (h : stringBody q true 0 (n + 2) rest = .ok (value, size)) :
    stringBody q true 0 n (Ascii.backslash :: Ascii.backslash :: rest)
      = .ok (Ascii.backslash :: value, size) := by
  have hskip := stringBody_skip q true [Ascii.backslash] rest (n + 1)
  rw [List.length_singleton, List.singleton_append, h] at hskip
  have hend : ¬ (True ∧ Ascii.backslash = q ∧ 2 ≤ runLength q (Ascii.backslash :: rest)) :=
    fun hend => hq hend.2.1.symm
  rw [stringBody.eq_def]
  simp only [not_true_eq_false, false_and, if_false, if_neg hend]
  rw [if_pos trivial, if_neg (by decide), hskip]
  rfl

/-- **A value with doubled backslashes is read up to three quotes.** -/
theorem stringBody_doubled (hq : q ≠ Ascii.backslash) (hv : RunsLast q v)
    (hrest : rest.head? ≠ some q) (n : ℕ) :
    stringBody q true 0 n (doubled v ++ (List.replicate 3 q ++ rest))
      = .ok (v, n + ((doubled v).length + 3)) := by
  induction v generalizing n with
  | nil => exact stringBody_run hrest n 0
  | cons b v ih =>
    by_cases hother : ∃ c ∈ b :: v, c ≠ q
    swap
    · -- the value is the last run, or what is left of it
      push Not at hother
      obtain ⟨k, hk⟩ : ∃ k, b :: v = List.replicate k q := ⟨_, List.eq_replicate_of_mem hother⟩
      rw [hk, doubled_replicate hq, List.length_replicate, ← List.append_assoc,
        ← List.replicate_add, stringBody_run hrest]
    have hlater (m : ℕ) := ih hv.tail m
    by_cases hback : b = Ascii.backslash
    · subst hback
      have hdouble : doubled (Ascii.backslash :: v) = Ascii.backslash :: Ascii.backslash :: doubled v := by
        rw [doubled_cons, if_pos rfl]
        rfl
      rw [hdouble, List.cons_append, List.cons_append, stringBody_backslash hq (hlater (n + 2))]
      simp only [List.length_cons]
      congr 2
      omega
    · have hopen : b = q → runLength q (doubled v ++ (List.replicate 3 q ++ rest)) ≤ 1 := by
        rintro rfl
        refine runLength_doubled_le hq hv ?_ _
        obtain ⟨c, hc, hne⟩ := hother
        exact ⟨c, (List.mem_cons.mp hc).resolve_left hne, hne⟩
      rw [doubled_cons_of_ne hback, List.cons_append, stringBody_byte hback hopen (hlater (n + 1)),
        List.length_cons]
      congr 2
      omega

end Scanner

namespace Lexer

/-- **A value with doubled backslashes is read back from between three quotes**, and the lexer goes on
right behind them. -/
theorem long_string_is_read (hq : q = Ascii.quote ∨ q = Ascii.apostrophe) (hv : RunsLast q v)
    (hrest : rest.head? ≠ some q) {l : Lexer} (hmode : l.mode = .turtle)
    (hl : l.rest = [q, q, q] ++ doubled v ++ [q, q, q] ++ rest) :
    l.next = (.ok ⟨.longString, v, l.position, false⟩,
        { l.advance ((doubled v).length + 6) with last := some .longString }) ∧
      (l.advance ((doubled v).length + 6)).rest = rest := by
  have hback : q ≠ Ascii.backslash := by
    rcases hq with rfl | rfl
    all_goals decide
  have hblank (t : Text) : blankLength false (q :: t) = 0 := by
    rcases hq with rfl | rfl
    all_goals rfl
  have htext : l.rest = q :: q :: q :: (doubled v ++ (List.replicate 3 q ++ rest)) := by
    rw [hl]
    simp
  have hrun (t : Text) : 2 ≤ Scanner.runLength q (q :: q :: t) := by
    rw [show q :: q :: t = List.replicate 2 q ++ t from rfl, Scanner.runLength_replicate]
    exact Nat.le_add_right 2 _
  have hstring : Scanner.string .turtle q (q :: q :: (doubled v ++ (List.replicate 3 q ++ rest)))
      = .ok ⟨.longString, v, (doubled v).length + 6, false⟩ := by
    rw [Scanner.string, if_pos ⟨rfl, hrun _⟩]
    show (Scanner.stringBody q true 0 3 (doubled v ++ (List.replicate 3 q ++ rest))).map _ = _
    rw [Scanner.stringBody_doubled hback hv hrest, Nat.add_left_comm]
    rfl
  have hscan : Scanner.scan l.mode l.afterString q
      (q :: q :: (doubled v ++ (List.replicate 3 q ++ rest)))
      = .ok ⟨.longString, v, (doubled v).length + 6, false⟩ := by
    rw [hmode, ← hstring]
    rcases hq with rfl | rfl
    all_goals rfl
  refine ⟨next_ok htext (hblank _) hscan, ?_⟩
  show l.rest.drop ((doubled v).length + 6) = rest
  have hlength : ([q, q, q] ++ doubled v ++ [q, q, q]).length = (doubled v).length + 6 := by
    simp only [List.length_append, List.length_cons, List.length_nil]
    omega
  rw [hl, ← hlength, List.drop_left]

/-- The value begins with two quotes and ends with a backslash and four quotes. -/
theorem long_string_is_read_seven_quotes :
    let l : Lexer := ⟨.turtle, "\"\"\"\"\"a\\\\\"\"\"\"\"\"\"@en", ⟨7, 2, 3⟩, none⟩
    l.mode = .turtle ∧ RunsLast Ascii.quote "\"\"a\\\"\"\"\"" ∧
      l.next = (.ok ⟨.longString, "\"\"a\\\"\"\"\"", ⟨7, 2, 3⟩, false⟩,
        ⟨.turtle, "@en", ⟨22, 2, 18⟩, some .longString⟩) := by
  intro l
  have hv : RunsLast Ascii.quote "\"\"a\\\"\"\"\"" := by decide +kernel
  have hrest : ("@en" : Text).head? ≠ some Ascii.quote := by decide
  refine ⟨rfl, hv, (long_string_is_read (.inl rfl) hv hrest rfl ?_).1.trans ?_⟩
  · rfl
  · rfl

end Lexer

end TripleStore
