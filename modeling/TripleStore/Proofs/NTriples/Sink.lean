import Mathlib.Tactic
import TripleStore.Proofs.NTriples.Writer

/-!
# Writing to a sink with limited room

A sink that takes a limited number of bytes gets whole buffers until one does not fit.  It is left with
a beginning of the output that consists of full buffers.  The statements are counted when they are
buffered, so that the count runs ahead of what the sink has taken, by up to one buffer.

* `Buffer.Limited`: a buffer that has handed full buffers only to such a sink.
* `Buffer.Adds`: what adding bytes comes to; whether it fails depends on the length of the text alone.
* `Buffer.add_adds`, `Buffer.Adds.bind`: one addition, and one after the other.
* `NTriples.writeFrom_limited`: all statements.
* `NTriples.sink_keeps_full_buffers`: **a sink that fails is left with full buffers of the output.**
-/

namespace TripleStore

namespace Buffer

variable {limit : ℕ} {b : Buffer} {text more : Text}

/-- A buffer in front of a sink that began with room for `limit` bytes and has taken full buffers. -/
structure Limited (limit : ℕ) (b : Buffer) : Prop where
  room : b.sink.room = some (limit - b.sink.taken.length)
  taken_le : b.sink.taken.length ≤ limit
  full : capacity ∣ b.sink.taken.length
  fits : b.waiting.length ≤ capacity

/-- The number of bytes up to which all goes well: the full buffers that fit the sink, and one more. -/
def reach (limit : ℕ) : ℕ := capacity * (limit / capacity + 1)

/-- What comes of bytes that are added, if `text` is what the buffer stands for with them: they are
there, or the sink is left with the full buffers that fit. -/
def Adds (limit : ℕ) (text : Text) : Except Buffer Buffer → Prop
  | .ok b => b.Limited limit ∧ b.text = text ∧ text.length ≤ reach limit
  | .error b => b.sink.taken = text.take (capacity * (limit / capacity)) ∧ reach limit < text.length

theorem length_text (b : Buffer) : b.text.length = b.sink.taken.length + b.waiting.length :=
  List.length_append

theorem lt_reach (limit : ℕ) : limit < reach limit := by
  rw [reach, capacity]
  omega

/-- What the sink has taken, and a buffer that is full, are no more than can be reached. -/
theorem Limited.add_capacity_le (h : b.Limited limit) :
    b.sink.taken.length + capacity ≤ reach limit := by
  obtain ⟨-, hle, hfull, -⟩ := h
  rw [reach]
  rw [capacity] at hfull ⊢
  omega

/-- What the sink has taken when a full buffer does not fit. -/
theorem Limited.taken_eq (h : b.Limited limit) (hlimit : limit < b.sink.taken.length + capacity) :
    b.sink.taken.length = capacity * (limit / capacity) := by
  obtain ⟨-, hle, hfull, -⟩ := h
  rw [capacity] at hfull hlimit ⊢
  omega

/-- A flush succeeds if the sink has room for all that the buffer stands for. -/
theorem Limited.flush (h : b.Limited limit) :
    (b.text.length ≤ limit → b.flush? = some ⟨⟨some (limit - b.text.length), b.text⟩, []⟩) ∧
      (limit < b.text.length → b.flush? = none) := by
  have hle := h.taken_le
  rw [length_text, flush?]
  cases hwaiting : b.waiting with
  | nil =>
    refine ⟨fun _ => ?_, fun hlt => ?_⟩
    · obtain ⟨⟨room, taken⟩, waiting⟩ := b
      cases hwaiting
      have hroom : room = some (limit - taken.length) := h.room
      simp [text, hroom]
    · rw [List.length_nil] at hlt
      omega
  | cons c waiting =>
    rw [← hwaiting]
    have hempty : ¬ b.waiting.isEmpty = true := by rw [hwaiting]; exact Bool.false_ne_true
    rw [if_neg hempty, Sink.take?, h.room]
    simp only
    constructor
    · intro hfits
      rw [if_pos (by omega), Nat.sub_sub]
      rfl
    · intro hlt
      rw [if_neg (by omega)]
      rfl

/-- The buffer with some more bytes waiting. -/
def wait (b : Buffer) (bytes : Text) : Buffer := { b with waiting := b.waiting ++ bytes }

theorem text_wait (b : Buffer) (bytes : Text) : (b.wait bytes).text = b.text ++ bytes :=
  (List.append_assoc ..).symm

theorem Limited.wait {bytes : Text} (h : b.Limited limit)
    (hroom : bytes.length ≤ capacity - b.waiting.length) : (b.wait bytes).Limited limit := by
  have hfits := h.fits
  refine ⟨h.room, h.taken_le, h.full, ?_⟩
  rw [Buffer.wait, List.length_append]
  omega

/-- A full buffer that fits the sink leaves an empty one. -/
theorem Limited.emptied (h : b.Limited limit) (hfull : b.waiting.length = capacity)
    (hle : b.text.length ≤ limit) : Limited limit ⟨⟨some (limit - b.text.length), b.text⟩, []⟩ := by
  refine ⟨rfl, hle, ?_, Nat.zero_le _⟩
  show capacity ∣ b.text.length
  rw [length_text, hfull]
  exact Dvd.dvd.add h.full dvd_rfl

/-- Bytes for which the buffer has room wait in it. -/
theorem Limited.addWithin_wait {bytes : Text} (h : b.Limited limit)
    (hroom : bytes.length ≤ capacity - b.waiting.length) (fuel : ℕ) :
    Adds limit (b.text ++ bytes) (addWithin (fuel + 1) b bytes) := by
  have hreach := h.add_capacity_le
  have hfits := h.fits
  rw [addWithin, if_pos hroom]
  refine ⟨h.wait hroom, text_wait b bytes, ?_⟩
  rw [List.length_append, length_text]
  omega

/-- One filling of the buffer after the other, with enough fuel. -/
theorem addWithin_adds {fuel : ℕ} {bytes : Text} (h : b.Limited limit)
    (hfuel : bytes.length ≤ (capacity - b.waiting.length) + fuel * capacity) :
    Adds limit (b.text ++ bytes) (addWithin (fuel + 1) b bytes) := by
  induction fuel generalizing b bytes with
  | zero => exact h.addWithin_wait (by omega) 0
  | succ fuel ih =>
    by_cases hroom : bytes.length ≤ capacity - b.waiting.length
    · exact h.addWithin_wait hroom _
    have hfits := h.fits
    rw [addWithin]
    simp only
    rw [if_neg hroom]
    generalize hfront : bytes.take (capacity - b.waiting.length) = front
    have hlength : front.length = capacity - b.waiting.length := by
      rw [← hfront, List.length_take_of_le (by omega)]
    have hbytes : bytes = front ++ bytes.drop (capacity - b.waiting.length) := by
      rw [← hfront, List.take_append_drop]
    have hfilled := h.wait hlength.le
    have hfull : (b.wait front).waiting.length = capacity := by
      rw [wait, List.length_append]
      omega
    obtain ⟨htakes, hrefuses⟩ := hfilled.flush
    rw [show Buffer.mk b.sink (b.waiting ++ front) = b.wait front from rfl]
    rcases Nat.lt_or_ge limit (b.wait front).text.length with hlt | hle
    · -- the sink refuses the full buffer, behind which more bytes come
      have htaken : b.sink.taken.length = capacity * (limit / capacity) := by
        refine h.taken_eq ?_
        rw [length_text, hfull] at hlt
        exact hlt
      rw [hrefuses hlt]
      constructor
      · rw [← htaken, text, List.append_assoc, List.take_left]
        rfl
      · rw [List.length_append, length_text, reach, Nat.mul_succ, ← htaken]
        omega
    · have hempty := hfilled.emptied hfull hle
      have hlater := @ih _ (bytes.drop (capacity - b.waiting.length)) hempty ?_
      · rw [htakes hle]
        have htext : b.text ++ bytes
            = (b.wait front).text ++ bytes.drop (capacity - b.waiting.length) := by
          rw [text_wait, List.append_assoc, ← hbytes]
        rw [htext]
        rw [text, List.append_nil] at hlater
        exact hlater
      · rw [Nat.succ_mul] at hfuel
        rw [List.length_drop, List.length_nil]
        omega

/-- **Bytes that are added are there, or the sink is left with the full buffers that fit.** -/
theorem add_adds (h : b.Limited limit) (bytes : Text) :
    Adds limit (b.text ++ bytes) (b.add bytes) := by
  refine addWithin_adds h ?_
  have hdiv := Nat.div_add_mod bytes.length capacity
  have hmod := Nat.mod_lt bytes.length (show 0 < capacity by decide)
  rw [Nat.succ_mul, Nat.mul_comm]
  omega

/-- One addition after the other. -/
theorem Adds.bind {x : Except Buffer Buffer} {f : Buffer → Except Buffer Buffer}
    (hx : Adds limit text x)
    (hf : ∀ b, b.Limited limit → b.text = text → Adds limit (text ++ more) (f b)) :
    Adds limit (text ++ more) (x.bind f) := by
  cases x with
  | ok b => exact hf b hx.1 hx.2.1
  | error b =>
    obtain ⟨htaken, hlt⟩ := hx
    have hle : capacity * (limit / capacity) ≤ text.length := by
      rw [reach, Nat.mul_succ] at hlt
      omega
    refine ⟨?_, ?_⟩
    · rw [List.take_append_of_le_length hle]
      exact htaken
    · rw [List.length_append]
      omega

end Buffer

namespace NTriples

open Buffer (Limited Adds reach capacity)

/-- The number of statements whose lines end within the first `n` bytes of the output. -/
def linesWithin (n : ℕ) (drafts : List Draft) : ℕ :=
  (List.range drafts.length).countP fun i => (render (drafts.take (i + 1))).length ≤ n

/-- The line of a statement. -/
def line (d : Draft) : Text := d.renderTriple ++ [Ascii.lineFeed]

theorem render_cons (d : Draft) (drafts : List Draft) :
    render (d :: drafts) = line d ++ render drafts := List.flatMap_cons

theorem linesWithin_cons (n : ℕ) (d : Draft) (drafts : List Draft) :
    linesWithin n (d :: drafts) =
      if (line d).length ≤ n then linesWithin (n - (line d).length) drafts + 1 else 0 := by
  rw [linesWithin, List.length_cons, List.range_succ_eq_map, List.countP_cons, List.countP_map]
  have hfirst : (render (List.take (0 + 1) (d :: drafts))).length = (line d).length := by
    rw [List.take_succ_cons, render_cons]
    simp [render]
  have hlater (i : ℕ) : (render (List.take (i + 1 + 1) (d :: drafts))).length
      = (line d).length + (render (drafts.take (i + 1))).length := by
    rw [List.take_succ_cons, render_cons, List.length_append]
  simp only [Function.comp_def, Nat.succ_eq_add_one, hfirst, hlater, decide_eq_true_eq]
  by_cases hline : (line d).length ≤ n
  · rw [if_pos hline, if_pos hline, linesWithin]
    congr 2
    funext i
    exact decide_eq_decide.mpr (by omega)
  · rw [if_neg hline, if_neg hline, Nat.add_zero, List.countP_eq_zero]
    intro i _
    rw [decide_eq_true_eq]
    omega

/-- All statements are counted where all lines end in time. -/
theorem linesWithin_eq_length {n : ℕ} {drafts : List Draft} (h : (render drafts).length ≤ n) :
    linesWithin n drafts = drafts.length := by
  induction drafts generalizing n with
  | nil => rfl
  | cons d drafts ih =>
    rw [render_cons, List.length_append] at h
    rw [linesWithin_cons, if_pos (by omega), ih (by omega), List.length_cons]

/-- A statement is added as a whole line. -/
theorem add_line {limit : ℕ} {b : Buffer} (h : b.Limited limit) (d : Draft) :
    Adds limit (b.text ++ line d)
      ((b.add d.renderTriple).bind fun b => b.add [Ascii.lineFeed]) := by
  rw [line, ← List.append_assoc]
  refine (Buffer.add_adds h d.renderTriple).bind fun b' hb' htext => ?_
  rw [← htext]
  exact Buffer.add_adds hb' _

/-- What writing comes to, if `whole` is the output: `all` statements are counted if the sink has room
for it, and `fitting` of them otherwise. -/
structure WritesLimited (limit : ℕ) (whole : Text) (fitting all : ℕ) (w : Written) : Prop where
  succeeds : whole.length ≤ limit → w.sink.taken = whole ∧ w.count = all ∧ w.error = none
  fails : limit < whole.length → w.sink.taken = whole.take (capacity * (limit / capacity)) ∧
    w.count = fitting ∧ w.error = some (.within (if whole.length ≤ reach limit then
      "failed to flush output" else "failed to write statement") .sinkFull)

/-- **Statements are written behind what stands in the buffer.** -/
theorem writeFrom_limited (drafts : List Draft) {limit count : ℕ} {b : Buffer} (h : b.Limited limit)
    (hb : b.text.length ≤ reach limit) :
    WritesLimited limit (b.text ++ render drafts)
      (count + linesWithin (reach limit - b.text.length) drafts) (count + drafts.length)
      (writeFrom count b drafts) := by
  induction drafts generalizing count b with
  | nil =>
    obtain ⟨htakes, hrefuses⟩ := h.flush
    have hwhole : b.text ++ render [] = b.text := List.append_nil _
    rw [hwhole, writeFrom]
    constructor
    · intro hle
      rw [htakes hle]
      exact ⟨rfl, rfl, rfl⟩
    · intro hlt
      have htaken : b.sink.taken.length = capacity * (limit / capacity) := by
        refine h.taken_eq ?_
        have hfits := h.fits
        rw [Buffer.length_text] at hlt
        omega
      rw [hrefuses hlt, if_pos hb, ← htaken, Buffer.text, List.take_left]
      exact ⟨rfl, rfl, rfl⟩
  | cons d drafts ih =>
    have hline := add_line h d
    rw [writeFrom, linesWithin_cons, render_cons, ← List.append_assoc, List.length_cons]
    cases hadd : (b.add d.renderTriple).bind fun b => b.add [Ascii.lineFeed] with
    | ok b' =>
      rw [hadd] at hline
      obtain ⟨hb', htext, hle⟩ := hline
      have hlater := @ih (count + 1) b' hb' (htext ▸ hle)
      rw [htext] at hlater
      rw [List.length_append] at hle hlater
      simp only [Nat.add_right_comm count 1] at hlater
      rw [if_pos (by omega), Nat.sub_sub]
      exact hlater
    | error b' =>
      -- the line does not fit, and neither do those behind it
      rw [hadd] at hline
      obtain ⟨htaken, hlt⟩ := hline
      have hfull : capacity * (limit / capacity) ≤ (b.text ++ line d).length := by
        rw [reach, Nat.mul_succ] at hlt
        omega
      have hwhole : (b.text ++ line d).length ≤ (b.text ++ line d ++ render drafts).length := by
        rw [(b.text ++ line d).length_append]
        exact Nat.le_add_right _ _
      constructor
      · intro hle
        have hreach := Buffer.lt_reach limit
        omega
      · intro _
        have hnone : ¬ (line d).length ≤ reach limit - b.text.length := by
          rw [List.length_append] at hlt
          omega
        rw [if_neg hnone, List.take_append_of_le_length hfull,
          if_neg (Nat.not_le.mpr (hlt.trans_le hwhole))]
        exact ⟨htaken, rfl, rfl⟩

theorem write_limited (limit : ℕ) (drafts : List Draft) :
    WritesLimited limit (render drafts) (linesWithin (reach limit) drafts) drafts.length
      (write ⟨some limit, []⟩ drafts) := by
  have hstart : Limited limit ⟨⟨some limit, []⟩, []⟩ :=
    ⟨rfl, Nat.zero_le _, Nat.dvd_zero _, Nat.zero_le _⟩
  have hwrites := @writeFrom_limited drafts limit 0 _ hstart (Nat.zero_le _)
  rw [Nat.zero_add, Nat.zero_add] at hwrites
  exact hwrites

/-- **A sink that fails is left with full buffers of the output.**  Writing fails if and only if the
output is longer than the room of the sink.  Then the sink has taken as many buffers as fit, and those
statements are counted whose lines end within one buffer more; the failure is that of the last flush if
these are all. -/
theorem sink_keeps_full_buffers (limit : ℕ) (drafts : List Draft) :
    let whole := render drafts
    let full := limit / 4096
    let w := write ⟨some limit, []⟩ drafts
    (w.error ≠ none ↔ limit < whole.length) ∧
    (w.error = none → w.sink.taken = whole ∧ w.count = drafts.length) ∧
    (w.error ≠ none → 4096 * full < whole.length ∧ w.sink.taken = whole.take (4096 * full) ∧
      w.count = linesWithin (4096 * (full + 1)) drafts ∧
      w.error = some (.within (if w.count = drafts.length ∧ whole.length ≤ 4096 * (full + 1) then
        "failed to flush output" else "failed to write statement") .sinkFull)) := by
  intro whole full w
  have hwrites := write_limited limit drafts
  have hiff : w.error ≠ none ↔ limit < whole.length := by
    rcases Nat.lt_or_ge limit whole.length with hlt | hle
    · have herror := (hwrites.fails hlt).2.2
      exact iff_of_true (fun hnone => Option.some_ne_none _ (herror.symm.trans hnone)) hlt
    · exact iff_of_false (fun herror => herror (hwrites.succeeds hle).2.2) (Nat.not_lt.mpr hle)
  refine ⟨hiff, fun hnone => ?_, fun herror => ?_⟩
  · have hle : whole.length ≤ limit := Nat.le_of_not_lt fun hlt => hiff.mpr hlt hnone
    exact ⟨(hwrites.succeeds hle).1, (hwrites.succeeds hle).2.1⟩
  · have hlt := hiff.mp herror
    obtain ⟨htaken, hcount, hcause⟩ := hwrites.fails hlt
    refine ⟨by omega, htaken, hcount, hcause.trans ?_⟩
    -- all statements are counted if and only if their lines end in time
    have hall : w.count = drafts.length ∧ whole.length ≤ 4096 * (full + 1) ↔
        whole.length ≤ reach limit :=
      ⟨fun h => h.2, fun h => ⟨hcount.trans (linesWithin_eq_length h), h⟩⟩
    rw [if_congr hall rfl rfl]

/-- Two lines of 14 bytes are counted, and a sink with room for 20 takes neither of them. -/
example : let d : Draft := ⟨some (.iri "a"), "b", some (.iri "c"), none⟩
    write ⟨some 20, []⟩ [d, d]
      = ⟨2, ⟨some 20, []⟩, some (.within "failed to flush output" .sinkFull)⟩ := by
  rfl

end NTriples

end TripleStore
