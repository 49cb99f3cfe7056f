import Mathlib.Tactic
import TripleStore.NTriples.Writer

/-!
# Writing to a sink without a limit

What a buffer stands for is what its sink has taken and what is still waiting.  Adding bytes adds
them to this text, however often the buffer is handed to the sink on the way, and never fails if the
sink takes everything.

* `Buffer.Unlimited`: a buffer that is not overfull, in front of a sink that takes everything.
* `Buffer.add_unlimited`: bytes are added.
* `NTriples.write_unlimited`: **all statements are counted and written, one per line.**
-/

namespace TripleStore

namespace Buffer

/-- The bytes that a buffer stands for: those at the sink and those that are waiting. -/
def text (b : Buffer) : Text := b.sink.taken ++ b.waiting

/-- The sink takes everything, and no more is waiting than fits. -/
structure Unlimited (b : Buffer) : Prop where
  room : b.sink.room = none
  fits : b.waiting.length ≤ capacity

theorem flush_unlimited {b : Buffer} (h : b.sink.room = none) :
    ∃ b', b.flush? = some b' ∧ b'.sink.room = none ∧ b'.waiting = [] ∧ b'.text = b.text := by
  rw [flush?]
  split_ifs with hempty
  · rw [List.isEmpty_iff] at hempty
    exact ⟨b, rfl, h, hempty, rfl⟩
  · refine ⟨⟨⟨none, b.sink.taken ++ b.waiting⟩, []⟩, ?_, rfl, rfl, ?_⟩
    · rw [Sink.take?, h]
      rfl
    · rw [text, text, List.append_nil]

theorem addWithin_unlimited {fuel : ℕ} {b : Buffer} {bytes : Text} (h : b.Unlimited)
    (hfuel : bytes.length ≤ (capacity - b.waiting.length) + fuel * capacity) :
    ∃ b', addWithin (fuel + 1) b bytes = .ok b' ∧ b'.Unlimited ∧ b'.text = b.text ++ bytes := by
  induction fuel generalizing b bytes with
  | zero =>
    have hfits := h.fits
    have hroom : bytes.length ≤ capacity - b.waiting.length := by omega
    rw [addWithin, if_pos hroom]
    refine ⟨_, rfl, ⟨h.room, ?_⟩, (List.append_assoc ..).symm⟩
    rw [List.length_append]
    omega
  | succ fuel ih =>
    have hfits := h.fits
    rw [addWithin]
    simp only
    split_ifs with hroom
    · refine ⟨_, rfl, ⟨h.room, ?_⟩, (List.append_assoc ..).symm⟩
      rw [List.length_append]
      omega
    · -- the buffer is filled and handed over, and the rest goes into an empty one
      obtain ⟨b₁, hflush, hnone, hempty, htext⟩ := flush_unlimited
        (b := { b with waiting := b.waiting ++ bytes.take (capacity - b.waiting.length) }) h.room
      have hrest : (bytes.drop (capacity - b.waiting.length)).length
          ≤ (capacity - b₁.waiting.length) + fuel * capacity := by
        rw [List.length_drop, hempty, List.length_nil]
        rw [Nat.succ_mul] at hfuel
        omega
      have hunlimited : b₁.Unlimited := ⟨hnone, by rw [hempty]; exact Nat.zero_le _⟩
      obtain ⟨b', hadd, hb', htext'⟩ := ih hunlimited hrest
      rw [hflush]
      refine ⟨b', hadd, hb', ?_⟩
      rw [htext', htext]
      simp only [text, List.append_assoc, List.take_append_drop]

/-- **Bytes that are added to a buffer stand behind those that were there.** -/
theorem add_unlimited {b : Buffer} (h : b.Unlimited) (bytes : Text) :
    ∃ b', b.add bytes = .ok b' ∧ b'.Unlimited ∧ b'.text = b.text ++ bytes := by
  refine addWithin_unlimited h ?_
  have hdiv := Nat.div_add_mod bytes.length capacity
  have hmod := Nat.mod_lt bytes.length (show 0 < capacity by decide)
  rw [Nat.succ_mul, Nat.mul_comm]
  omega

end Buffer

namespace NTriples

theorem writeFrom_unlimited (drafts : List Draft) {count : ℕ} {b : Buffer} (h : b.Unlimited) :
    writeFrom count b drafts
      = ⟨count + drafts.length, ⟨none, b.text ++ render drafts⟩, none⟩ := by
  induction drafts generalizing count b with
  | nil =>
    obtain ⟨b', hflush, hnone, hempty, htext⟩ := Buffer.flush_unlimited h.room
    have hsink : b'.sink = ⟨none, b.text⟩ := by
      rw [Buffer.text, hempty, List.append_nil] at htext
      rw [← hnone, ← htext]
    rw [writeFrom, hflush]
    simp only [hsink, render, List.flatMap_nil, List.append_nil, List.length_nil, Nat.add_zero]
  | cons d drafts ih =>
    obtain ⟨b₁, hline, hb₁, htext₁⟩ := Buffer.add_unlimited h d.renderTriple
    obtain ⟨b₂, hend, hb₂, htext₂⟩ := Buffer.add_unlimited hb₁ [Ascii.lineFeed]
    rw [writeFrom, hline]
    simp only [Except.bind, hend]
    rw [ih hb₂, htext₂, htext₁, List.length_cons, render, render, List.flatMap_cons]
    simp only [List.append_assoc, Nat.add_assoc, Nat.add_comm 1]

/-- **All statements are counted and written, one per line**, to a sink that takes everything. -/
theorem write_unlimited (drafts : List Draft) :
    write ⟨none, []⟩ drafts = ⟨drafts.length, ⟨none, render drafts⟩, none⟩ := by
  have h : Buffer.Unlimited ⟨⟨none, []⟩, []⟩ := ⟨rfl, Nat.zero_le _⟩
  rw [write, writeFrom_unlimited drafts h, Nat.zero_add]
  rfl

end NTriples

end TripleStore
