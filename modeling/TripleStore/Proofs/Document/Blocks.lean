import TripleStore.Document.Format
import TripleStore.Proofs.NTriples.Grammar
import TripleStore.Proofs.Turtle.Fault
import TripleStore.Proofs.Turtle.Parser

/-!
# Reading block by block

Documents of both formats are read in blocks: lines of N-Triples, directives and triples of Turtle.
Between two blocks a reader knows its context and the labels met, and nothing else.  Which tokens a
block takes does not depend on what stands behind them, except that a lexical error directly behind
its last token makes the block fail.

* `Setting`: what a reader knows between two blocks.
* `Format.block`, `Format.walk`, `Format.run`: the readers of both formats, block by block, with the
  setting that they end in; `readIn_eq_run` says that they are the readers.
* `Format.Takes`, `takes_of_block`, `Takes.block`: **what a block takes is told by its own tokens.**
* `Format.Runs`, `exists_runs`: the blocks of a text that was read.
* `run_after`, `run_fault`: what is read where more tokens, or an error, stand behind some blocks.
-/

namespace TripleStore

open TokenStream

/-- What a reader knows between two blocks.  The context of N-Triples is empty. -/
structure Setting where
  context : Turtle.Context := {}
  labels : Labels

/-- What a reader knows before the first block of a document. -/
def Setting.start (supply : Supply) : Setting := ⟨{}, ⟨{}, supply⟩⟩

/-! ### Deliveries with blocks in front -/

namespace Delivery

/-- A delivery behind some blocks, each with the supply that it leaves. -/
def behind (blocks : List (List Statement × Supply)) (d : Delivery) : Delivery :=
  blocks.foldr (fun b later => .block b.1 b.2 later) d

theorem receive_behind (blocks : List (List Statement × Supply)) (d : Delivery) :
    (behind blocks d).receive =
      { d.receive with statements := (blocks.map Prod.fst).flatten ++ d.receive.statements } := by
  induction blocks with
  | nil => rfl
  | cons b blocks ih =>
    show { (behind blocks d).receive with
      statements := b.1 ++ (behind blocks d).receive.statements } = _
    rw [ih, List.map_cons, List.flatten_cons, List.append_assoc]

end Delivery

namespace Format

/-- The mode of the lexer. -/
def mode : Format → Mode
  | .ntriples => .ntriples
  | .turtle => .turtle

/-- Reads one block: its statements, and the setting and the tokens behind it; or the error with the
supply behind it. -/
def block : Format → Setting → TokenStream →
    Except (ReadError × Supply) (List Statement × Setting × TokenStream)
  | .ntriples, s, stream =>
    match NTriples.statement.run (NTriples.reading s.labels stream) with
    | .ok stmt s' => .ok ([stmt], ⟨s.context, ⟨s'.scope, s'.supply⟩⟩, s'.stream)
    | .error e s' => .error (e, s'.supply)
  | .turtle, s, stream =>
    match Turtle.statement.run (Turtle.reading s.context s.labels stream []) with
    | .ok stmts s' => .ok (stmts, ⟨⟨s'.prefixes, s'.base⟩, ⟨s'.scope, s'.supply⟩⟩, s'.stream)
    | .error e s' => .error (e, s'.supply)

/-- Reads at most `fuel` blocks: what is delivered, and the setting behind the last block. -/
def walk (f : Format) : (fuel : ℕ) → Setting → TokenStream → Delivery × Setting
  | 0, s, _ => (.finish s.labels.supply, s)
  | fuel + 1, s, stream =>
    if stream.current.kind = .eof then (.finish s.labels.supply, s)
    else match f.block s stream with
      | .ok (stmts, s', rest) =>
        (.block stmts s'.labels.supply (f.walk fuel s' rest).1, (f.walk fuel s' rest).2)
      | .error (e, supply) => (.failed e supply, s)

/-- Reads all blocks of a token stream. -/
def run (f : Format) (s : Setting) (stream : TokenStream) : Delivery × Setting :=
  match stream.sound with
  | .error e => (.failed (.lexical e) s.labels.supply, s)
  | .ok stream => f.walk (stream.length + 1) s stream

/-- Delivers the statements of a text that is read in a setting. -/
def readIn : Format → Setting → Text → Delivery
  | .ntriples, s, text =>
    NTriples.readStream (.ofText .ntriples text) s.labels.scope s.labels.supply
  | .turtle, s, text =>
    Turtle.readState (Turtle.reading s.context s.labels (.ofText .turtle text) [])

/-- The setting that the reading of a text ends in. -/
def ending (f : Format) (s : Setting) (text : Text) : Setting := (f.run s (ofText f.mode text)).2

/-! ### The readers of the two formats -/

theorem read_eq_readIn (f : Format) (text : Text) (supply : Supply) :
    f.read text supply = f.readIn (.start supply) text := by
  cases f <;> rfl

theorem deliver_ntriples (fuel : ℕ) (s : Setting) (stream : TokenStream) :
    NTriples.deliver fuel (NTriples.reading s.labels stream)
      = (Format.ntriples.walk fuel s stream).1 := by
  induction fuel generalizing s stream with
  | zero => rfl
  | succ fuel ih =>
    rw [NTriples.deliver, walk, NTriples.stream_reading]
    split_ifs with heof
    · rfl
    · rw [block]
      cases hrun : NTriples.statement.run (NTriples.reading s.labels stream) with
      | ok stmt s' => exact congrArg _ (ih ⟨s.context, ⟨s'.scope, s'.supply⟩⟩ s'.stream)
      | error e s' => rfl

/-- What a reader of Turtle delivers does not depend on the triples of the block before. -/
theorem deliver_turtle (fuel : ℕ) (s : Setting) (stream : TokenStream) (out : List Statement) :
    Turtle.deliver fuel (Turtle.reading s.context s.labels stream out)
      = (Format.turtle.walk fuel s stream).1 := by
  induction fuel generalizing s stream out with
  | zero => rfl
  | succ fuel ih =>
    rw [Turtle.deliver, walk, Turtle.stream_reading]
    split_ifs with heof
    · rfl
    · have hclear : Turtle.statement.run (Turtle.reading s.context s.labels stream out)
          = Turtle.statement.run (Turtle.reading s.context s.labels stream []) := rfl
      rw [block, hclear]
      cases hrun : Turtle.statement.run (Turtle.reading s.context s.labels stream []) with
      | ok stmts s' =>
        exact congrArg _ (ih ⟨⟨s'.prefixes, s'.base⟩, ⟨s'.scope, s'.supply⟩⟩ s'.stream s'.emitted)
      | error e s' => rfl

/-- **Both formats are read block by block.** -/
theorem readIn_eq_run (f : Format) (s : Setting) (text : Text) :
    f.readIn s text = (f.run s (ofText f.mode text)).1 := by
  cases f with
  | ntriples =>
    rw [readIn, NTriples.readStream, run, mode]
    cases (ofText .ntriples text).sound with
    | error e => rfl
    | ok stream => exact deliver_ntriples _ s stream
  | turtle =>
    rw [readIn, Turtle.readState, run, mode, Turtle.stream_reading]
    cases (ofText .turtle text).sound with
    | error e => rfl
    | ok stream => exact deliver_turtle _ s stream []

theorem run_sound {f : Format} {s : Setting} {stream : TokenStream} (h : stream.Sound) :
    f.run s stream = f.walk (stream.length + 1) s stream := by
  rw [run, h]

/-! ### One block -/

/-- The tokens are those of one block: in the setting they spell out the statements and leave the
setting behind the block. -/
inductive Takes : Format → Setting → List Token → List Statement → Setting → Prop
  | line {s : Setting} {line : NTriples.Line} {stmt : Statement} {l' : Labels} :
      line.meaning.run s.labels = some (stmt, l') →
      Takes .ntriples s line.tokens [stmt] ⟨s.context, l'⟩
  | turtle {s : Setting} {b : Turtle.Block} {stmts : List Statement} {l' : Labels} :
      (b.meaning s.context).run s.labels = some (stmts, l') →
      Takes .turtle s b.tokens stmts ⟨b.effect s.context, l'⟩

/-- **What a block takes is told by its own tokens.** -/
theorem takes_of_block {f : Format} {s s' : Setting} {stream rest : TokenStream}
    {stmts : List Statement} (h : f.block s stream = .ok (stmts, s', rest)) :
    ∃ ts, stream = after ts rest ∧ rest.Sound ∧ f.Takes s ts stmts s' := by
  cases f with
  | ntriples =>
    rw [block] at h
    split at h
    · next stmt s₁ hrun =>
      obtain ⟨line, rest', l', rfl, hrest, hm, rfl⟩ := NTriples.statement_sound hrun
      cases h
      exact ⟨line.tokens, rfl, hrest, .line hm⟩
    · cases h
  | turtle =>
    rw [block] at h
    split at h
    · next stmts' s₁ hrun =>
      obtain ⟨b, rest', l', out', rfl, hrest, hm, rfl⟩ := Turtle.statement_sound hrun
      cases h
      exact ⟨b.tokens, rfl, hrest, .turtle hm⟩
    · cases h

namespace Takes

variable {f : Format} {s s' : Setting} {ts : List Token} {stmts : List Statement}

/-- The block that was read is read in the same way in front of any other tokens. -/
theorem block (h : f.Takes s ts stmts s') {rest : TokenStream} (hrest : rest.Sound) :
    f.block s (after ts rest) = .ok (stmts, s', rest) := by
  cases h with
  | line hm =>
    rw [Format.block, NTriples.Line.complete _ hm hrest]
    rfl
  | @turtle _ b _ l' hm =>
    obtain ⟨out', hrun⟩ : ∃ out', Turtle.statement.run
        (Turtle.reading s.context s.labels (after b.tokens rest) [])
        = .ok stmts (Turtle.reading (b.effect s.context) l' rest out') := b.complete hm hrest
    rw [Format.block, hrun]
    rfl

/-- A lexical error directly behind a block makes it fail; its labels are drawn all the same. -/
theorem fault (h : f.Takes s ts stmts s') (e : LexError) :
    f.block s (after ts (.fault e)) = .error (.lexical e, s'.labels.supply) := by
  cases h with
  | line hm =>
    rw [Format.block, NTriples.Line.fault _ hm e]
    rfl
  | @turtle _ b _ l' hm =>
    obtain ⟨s₁, hrun, hsupply⟩ : ∃ s₁, Turtle.statement.run
        (Turtle.reading s.context s.labels (after b.tokens (.fault e)) [])
        = .error (.lexical e) s₁ ∧ s₁.supply = l'.supply := b.fault hm e
    rw [Format.block, hrun, ← hsupply]

theorem exists_first (h : f.Takes s ts stmts s') : ∃ t us, ts = t :: us ∧ t.kind ≠ .eof := by
  cases h with
  | line _ => exact NTriples.Line.exists_token _
  | turtle _ => exact Turtle.Block.exists_token _

/-- No block ends in a string. -/
theorem exists_last (h : f.Takes s ts stmts s') :
    ∃ us t, ts = us ++ [t] ∧ t.kind.isString = false := by
  cases h with
  | @line _ line _ l' hm =>
    refine ⟨line.subject.tokens ++ line.predicate.1 :: line.object.tokens, line.stop.1, ?_, ?_⟩
    · rw [NTriples.Line.tokens, List.append_assoc, List.cons_append]
    · rw [line.stop.2]
      rfl
  | @turtle _ b _ l' hm => exact b.exists_last

theorem length_pos (h : f.Takes s ts stmts s') : 0 < ts.length := by
  obtain ⟨t, us, rfl, -⟩ := h.exists_first
  exact Nat.succ_pos _

theorem not_eof (h : f.Takes s ts stmts s') (rest : TokenStream) :
    (after ts rest).current.kind ≠ .eof := by
  obtain ⟨t, us, rfl, hk⟩ := h.exists_first
  exact hk

theorem sound (h : f.Takes s ts stmts s') (rest : TokenStream) : (after ts rest).Sound := by
  obtain ⟨t, us, rfl, -⟩ := h.exists_first
  exact sound_token _ _

end Takes

/-! ### All blocks -/

variable {f : Format} {s s' s'' : Setting} {ts us : List Token} {stmts : List Statement}
  {blocks : List (List Statement × Supply)} {stream rest : TokenStream}

/-- A bound on the number of blocks that is larger than the number of tokens is never used up. -/
theorem walk_stable {m n : ℕ} (hm : stream.length < m) (hn : stream.length < n) :
    f.walk m s stream = f.walk n s stream := by
  induction m generalizing n s stream with
  | zero => omega
  | succ m ih =>
    obtain ⟨n, rfl⟩ := Nat.exists_eq_succ_of_ne_zero (Nat.ne_zero_of_lt hn)
    rw [walk, walk]
    split_ifs with heof
    · rfl
    · cases hblock : f.block s stream with
      | error e => rfl
      | ok a =>
        obtain ⟨stmts, s', rest⟩ := a
        obtain ⟨ts, rfl, -, htakes⟩ := takes_of_block hblock
        have hpos := htakes.length_pos
        rw [length_after] at hm hn
        have hrest : f.walk m s' rest = f.walk n s' rest := ih (by omega) (by omega)
        simp only [hrest]

/-- The tokens are those of some blocks, one after the other; each block has its statements and the
supply behind it. -/
inductive Runs (f : Format) : Setting → List Token → List (List Statement × Supply) → Setting → Prop
  | nil {s : Setting} : Runs f s [] [] s
  | cons {s s' s'' : Setting} {ts us : List Token} {stmts : List Statement}
      {blocks : List (List Statement × Supply)} : f.Takes s ts stmts s' → Runs f s' us blocks s'' →
      Runs f s (ts ++ us) ((stmts, s'.labels.supply) :: blocks) s''

/-- The blocks that are walked through, up to the end of the stream. -/
theorem exists_runs_of_walk {fuel : ℕ} {left : Supply} (hsound : stream.Sound)
    (hfuel : stream.length < fuel)
    (h : (f.walk fuel s stream).1.collect = (.ok stmts, left)) :
    ∃ ts blocks rest, stream = after ts rest ∧ rest.Sound ∧ rest.current.kind = .eof ∧
      f.Runs s ts blocks (f.walk fuel s stream).2 := by
  induction fuel generalizing s stream stmts with
  | zero => omega
  | succ fuel ih =>
    rw [walk] at h ⊢
    split_ifs at h with heof
    · rw [if_pos heof]
      exact ⟨[], [], stream, rfl, hsound, heof, .nil⟩
    · rw [if_neg heof]
      cases hblock : f.block s stream with
      | error e =>
        rw [hblock] at h
        exact absurd h Delivery.collect_failed_ne_ok
      | ok a =>
        obtain ⟨stmts', s', rest⟩ := a
        obtain ⟨ts, rfl, hrest, htakes⟩ := takes_of_block hblock
        rw [hblock] at h
        obtain ⟨later, hlater, rfl⟩ := Delivery.collect_block_eq_ok.mp h
        have hpos := htakes.length_pos
        rw [length_after] at hfuel
        obtain ⟨us, blocks, rest', rfl, hrest', heof', hruns⟩ := ih hrest (by omega) hlater
        refine ⟨ts ++ us, _, rest', ?_, hrest', heof', .cons htakes hruns⟩
        rw [after_append]

/-- **More tokens behind some blocks are read behind them**, in the setting that the blocks end
in. -/
theorem run_after (h : f.Runs s ts blocks s') (hrest : rest.Sound) :
    f.run s (after ts rest)
      = (Delivery.behind blocks (f.run s' rest).1, (f.run s' rest).2) := by
  induction h with
  | nil => rfl
  | @cons s s₁ s' ts us stmts blocks htakes hruns ih =>
    have hsound : (after us rest).Sound := sound_after hrest us
    have hpos := htakes.length_pos
    rw [after_append, run_sound (sound_after hsound ts), walk, if_neg (htakes.not_eof _),
      htakes.block hsound]
    have hlength : (after us rest).length < (after ts (after us rest)).length := by
      rw [length_after ts]
      omega
    have hlater := ih
    rw [run_sound hsound, walk_stable (Nat.lt_succ_self _) hlength] at hlater
    simp only [hlater]
    rfl

/-- **The last of some blocks is lost to an error behind it**; those before it are delivered. -/
theorem run_fault (h : f.Runs s ts blocks s') (e : LexError) :
    (f.run s (after ts (.fault e))).1
      = Delivery.behind blocks.dropLast (.failed (.lexical e) s'.labels.supply) := by
  induction h with
  | nil => rfl
  | @cons s s₁ s' ts us stmts blocks htakes hruns ih =>
    have hpos := htakes.length_pos
    cases hruns with
    | nil =>
      rw [List.append_nil, run_sound (htakes.sound _), walk, if_neg (htakes.not_eof _),
        htakes.fault e]
      rfl
    | @cons _ s₂ _ us vs stmts' blocks htakes' hruns' =>
      have hsound : (after (us ++ vs) (.fault e)).Sound := by
        rw [after_append]
        exact htakes'.sound _
      rw [after_append, run_sound (htakes.sound _), walk, if_neg (htakes.not_eof _),
        htakes.block hsound]
      have hlength : (after (us ++ vs) (.fault e)).length
          < (after ts (after (us ++ vs) (.fault e))).length := by
        rw [length_after ts]
        omega
      have hlater := ih
      rw [run_sound hsound, walk_stable (Nat.lt_succ_self _) hlength] at hlater
      simp only [hlater]
      rfl

/-- **The blocks of a text that was read**: they are all the tokens of the text, and the setting
behind them is the one that the reading ends in. -/
theorem exists_runs {text : Text} {left : Supply}
    (h : (f.readIn s text).collect = (.ok stmts, left)) :
    ∃ ts blocks p, ofText f.mode text = after ts (.done p) ∧
      f.Runs s ts blocks (f.ending s text) ∧
      f.readIn s text = Delivery.behind blocks (.finish (f.ending s text).labels.supply) := by
  rw [readIn_eq_run] at h ⊢
  have hsound : (ofText f.mode text).Sound := by
    cases hstream : ofText f.mode text with
    | fault e =>
      rw [hstream] at h
      exact absurd h Delivery.collect_failed_ne_ok
    | done p => exact sound_done p
    | token t rest => exact sound_token t rest
  rw [run_sound hsound] at h
  obtain ⟨ts, blocks, rest, hstream, hrest, heof, hruns⟩ :=
    exists_runs_of_walk hsound (Nat.lt_succ_self _) h
  obtain ⟨p, rfl⟩ := eq_done_of_ofLexer hstream hrest heof
  rw [← run_sound hsound] at hruns
  have hrun := run_after hruns hrest
  rw [← hstream] at hrun
  exact ⟨ts, blocks, p, hstream, hruns, congrArg Prod.fst hrun⟩

end Format

end TripleStore
