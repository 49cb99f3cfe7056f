import TripleStore.Document.Load
import TripleStore.Proofs.Document.Valid
import TripleStore.Proofs.Graph.Basic
import TripleStore.Proofs.Turtle.Move
import TripleStore.Proofs.Turtle.Pairing

/-!
# Documents behind documents

Two texts with a line feed between them are read one after the other: the first as if it stood alone,
the second in the setting that the reading of the first ends in.  The last block of the first text is
another matter if the second text begins with something that is no token: its full stop is given up
only when the next token could be read, so the block is lost.

* `Format.Takes.move`, `Format.Takes.agree`: a block that stands somewhere else, and in another
  reading.
* `Format.readIn_append`: **an accepted text behind an accepted one**, in any setting.
* `Format.collect_append`: **documents concatenate.**
* `Format.receive_append`: **what is delivered of a text that is followed by anything.**
-/

namespace TripleStore

open TokenStream

/-! ### Deliveries -/

namespace Delivery

/-- The blocks of statements that are delivered. -/
def blocks : Delivery → List (List Statement)
  | .finish _ => []
  | .failed _ _ => []
  | .block statements _ later => statements :: later.blocks

theorem blocks_behind (bs : List (List Statement × Supply)) (d : Delivery) :
    (behind bs d).blocks = bs.map Prod.fst ++ d.blocks := by
  induction bs with
  | nil => rfl
  | cons b bs ih => exact congrArg (b.1 :: ·) ih

theorem collect_behind_finish (bs : List (List Statement × Supply)) (supply : Supply) :
    (behind bs (.finish supply)).collect = (.ok (bs.map Prod.fst).flatten, supply) := by
  rw [collect, receive_behind]
  simp [receive]

end Delivery

theorem TokenStream.sound_move {stream : TokenStream} (h : stream.Sound) (g : Position → Position) :
    (stream.move g).Sound := by
  cases stream with
  | fault e => cases h
  | done p => exact sound_done _
  | token t rest => exact sound_token _ _

namespace Format

variable {f : Format} {s s' s'' : Setting} {ts us : List Token} {stmts : List Statement}
  {blocks more : List (List Statement × Supply)} {text : Text}

/-! ### Blocks -/

/-- A block that stands somewhere else is the same block. -/
theorem Takes.move (h : f.Takes s ts stmts s') (g : Position → Position) :
    f.Takes s (ts.map (Token.move g)) stmts s' := by
  cases h with
  | @line _ line _ l' hm =>
    rw [← line.tokens_move]
    rw [← line.meaning_move g] at hm
    exact .line hm
  | @turtle _ b _ l' hm =>
    rw [← b.tokens_move, ← b.effect_move g]
    rw [← b.meaning_move g] at hm
    exact .turtle hm

/-- A block is read whatever labels were met before it, with the same statements but for the
labels. -/
theorem Takes.agree (h : f.Takes s ts stmts s') (l : Labels) :
    ∃ stmts' l', f.Takes ⟨s.context, l⟩ ts stmts' ⟨s'.context, l'⟩ ∧
      Pairing.any.Statements stmts stmts' := by
  cases h with
  | @line _ line _ _ hm =>
    obtain ⟨stmt', l', hm', hstmt, -⟩ := line.agree.run (ρ := Pairing.any) (m := l) trivial hm
    exact ⟨[stmt'], l', .line hm', .cons hstmt .nil⟩
  | @turtle _ b _ _ hm =>
    obtain ⟨stmts', l', hm', hstmts, -⟩ := b.agree.run (ρ := Pairing.any) (m := l) trivial hm
    exact ⟨stmts', l', .turtle hm', hstmts⟩

/-- A block without the words of directives leaves the context as it was. -/
theorem Takes.context_eq (h : f.Takes s ts stmts s')
    (hts : ∀ t ∈ ts, t.kind ≠ .prefixDirective ∧ t.kind ≠ .baseDirective) :
    s'.context = s.context := by
  cases h with
  | line _ => rfl
  | @turtle _ b _ _ _ =>
    cases b with
    | triples t stop => rfl
    | directive d =>
      cases d with
      | declare word name iri stop => exact absurd word.2.1 (hts _ List.mem_cons_self).1
      | bareDeclare word name iri => exact absurd word.2.1 (hts _ List.mem_cons_self).1
      | base word iri stop => exact absurd word.2.1 (hts _ List.mem_cons_self).2
      | bareBase word iri => exact absurd word.2.1 (hts _ List.mem_cons_self).2

/-! ### Runs of blocks -/

namespace Runs

theorem append (h : f.Runs s ts blocks s') (h' : f.Runs s' us more s'') :
    f.Runs s (ts ++ us) (blocks ++ more) s'' := by
  induction h with
  | nil => exact h'
  | cons htakes _ ih =>
    rw [List.append_assoc]
    exact .cons htakes (ih h')

theorem move (h : f.Runs s ts blocks s') (g : Position → Position) :
    f.Runs s (ts.map (Token.move g)) blocks s' := by
  induction h with
  | nil => exact .nil
  | cons htakes _ ih =>
    rw [List.map_append]
    exact .cons (htakes.move g) ih

/-- Some blocks are read whatever labels were met before them. -/
theorem agree (h : f.Runs s ts blocks s') (l : Labels) :
    ∃ blocks' l', f.Runs ⟨s.context, l⟩ ts blocks' ⟨s'.context, l'⟩ ∧
      Pairing.any.Statements (blocks.map Prod.fst).flatten (blocks'.map Prod.fst).flatten := by
  induction h generalizing l with
  | nil => exact ⟨[], l, .nil, .nil⟩
  | cons htakes _ ih =>
    obtain ⟨stmts', l₁, htakes', hstmts⟩ := htakes.agree l
    obtain ⟨blocks', l', hruns', hblocks⟩ := ih l₁
    exact ⟨_, l', .cons htakes' hruns', List.rel_append hstmts hblocks⟩

theorem context_eq (h : f.Runs s ts blocks s')
    (hts : ∀ t ∈ ts, t.kind ≠ .prefixDirective ∧ t.kind ≠ .baseDirective) :
    s'.context = s.context := by
  induction h with
  | nil => rfl
  | cons htakes _ ih =>
    rw [ih fun t ht => hts t (List.mem_append_right _ ht),
      htakes.context_eq fun t ht => hts t (List.mem_append_left _ ht)]

/-- The last token of some blocks is no string. -/
theorem last_not_string (h : f.Runs s ts blocks s') :
    ∀ t ∈ ts.getLast?, t.kind.isString = false := by
  induction h with
  | nil => exact fun _ ht => nomatch ht
  | @cons s₀ s₁ s₂ ts us stmts blocks htakes hruns ih =>
    cases us with
    | nil =>
      obtain ⟨vs, t, rfl, ht⟩ := htakes.exists_last
      rw [List.append_nil, List.getLast?_concat]
      rintro _ ⟨⟩
      exact ht
    | cons u us =>
      rwa [List.getLast?_append_of_ne_nil _ (List.cons_ne_nil u us)]

end Runs

/-! ### Texts -/

/-- The blocks of a text are what is delivered of it. -/
theorem run_text {p : Position} (h : ofText f.mode text = after ts (.done p))
    (hruns : f.Runs s ts blocks s') :
    f.run s (ofText f.mode text) = (Delivery.behind blocks (.finish s'.labels.supply), s') := by
  rw [h, run_after hruns (sound_done p)]
  rfl

/-- **The blocks of a text that was read, and what stands behind them** when another text follows. -/
theorem exists_runs_seam {t₁ : Text} {left : Supply}
    (h : (f.readIn s t₁).collect = (.ok stmts, left)) :
    ∃ ts blocks, (ofText f.mode t₁).tokens = ts ∧ f.Runs s ts blocks (f.ending s t₁) ∧
      f.readIn s t₁ = Delivery.behind blocks (.finish left) ∧
      stmts = (blocks.map Prod.fst).flatten ∧ left = (f.ending s t₁).labels.supply ∧
      ∀ t₂, ofText f.mode (t₁ ++ Ascii.lineFeed :: t₂) = after ts
        ((ofText f.mode t₂).move (Position.start.after (t₁ ++ [Ascii.lineFeed])).beyond) := by
  obtain ⟨ts, blocks, p, htokens, hruns, hread⟩ := exists_runs h
  rw [hread, Delivery.collect_behind_finish] at h
  cases h
  refine ⟨ts, blocks, ?_, hruns, hread, rfl, rfl, fun t₂ => ?_⟩
  · rw [htokens, tokens_after]
    exact List.append_nil ts
  · exact ofText_seam htokens hruns.last_not_string t₂

/-- **An accepted text behind an accepted one**: both together are accepted, with the statements of
both, and end in the setting that the second ends in. -/
theorem readIn_append {t₁ t₂ : Text} {stmts₁ stmts₂ : List Statement} {left₁ left₂ : Supply}
    (h₁ : (f.readIn s t₁).collect = (.ok stmts₁, left₁))
    (h₂ : (f.readIn (f.ending s t₁) t₂).collect = (.ok stmts₂, left₂)) :
    (f.readIn s (t₁ ++ Ascii.lineFeed :: t₂)).collect = (.ok (stmts₁ ++ stmts₂), left₂) ∧
      f.ending s (t₁ ++ Ascii.lineFeed :: t₂) = f.ending (f.ending s t₁) t₂ := by
  obtain ⟨ts₁, blocks₁, -, hruns₁, -, rfl, -, hseam⟩ := exists_runs_seam h₁
  obtain ⟨ts₂, blocks₂, p, htokens₂, hruns₂, hread₂⟩ := exists_runs h₂
  rw [hread₂, Delivery.collect_behind_finish] at h₂
  cases h₂
  have htokens := hseam t₂
  rw [htokens₂, move_after, ← after_append] at htokens
  have hrun := run_text htokens (hruns₁.append (hruns₂.move _))
  have hending : f.ending s (t₁ ++ Ascii.lineFeed :: t₂) = f.ending (f.ending s t₁) t₂ := by
    show (f.run s (ofText f.mode (t₁ ++ Ascii.lineFeed :: t₂))).2 = _
    rw [hrun]
  refine ⟨?_, hending⟩
  rw [readIn_eq_run, hrun, Delivery.collect_behind_finish, List.map_append, List.flatten_append]

/-- **A text that is read after a text without directives** is read as on its own, whatever labels
the first text has used, and its statements are the same but for the labels. -/
theorem exists_collect_ending {t₁ t₂ : Text} {supply supply₂ : Supply} {stmts₁ stmts₂ : List Statement}
    {left₁ left₂ : Supply} (h₁ : (f.read t₁ supply).collect = (.ok stmts₁, left₁))
    (hplain : ∀ t ∈ (ofText f.mode t₁).tokens, t.kind ≠ .prefixDirective ∧ t.kind ≠ .baseDirective)
    (h₂ : (f.read t₂ supply₂).collect = (.ok stmts₂, left₂)) :
    ∃ stmts left, (f.readIn (f.ending (.start supply) t₁) t₂).collect = (.ok stmts, left) ∧
      Pairing.any.Statements stmts₂ stmts := by
  rw [read_eq_readIn] at h₁ h₂
  obtain ⟨ts₁, blocks₁, htokens₁, hruns₁, -⟩ := exists_runs_seam h₁
  rw [htokens₁] at hplain
  have hcontext : (f.ending (.start supply) t₁).context = {} := hruns₁.context_eq hplain
  obtain ⟨ts₂, blocks₂, p, htokens₂, hruns₂, hread₂⟩ := exists_runs h₂
  rw [hread₂, Delivery.collect_behind_finish] at h₂
  cases h₂
  obtain ⟨blocks, l, hruns, hpaired⟩ := hruns₂.agree (f.ending (.start supply) t₁).labels
  have hstart : (⟨(Setting.start supply₂).context, (f.ending (.start supply) t₁).labels⟩ : Setting)
      = f.ending (.start supply) t₁ := by
    show (⟨{}, _⟩ : Setting) = _
    rw [← hcontext]
  rw [hstart] at hruns
  refine ⟨(blocks.map Prod.fst).flatten, l.supply, ?_, hpaired⟩
  rw [readIn_eq_run, run_text htokens₂ hruns, Delivery.collect_behind_finish]

/-- **Documents concatenate.**  Behind an accepted text stands one that is accepted in the setting
that the reading of the first ends in, which holds the supply that is left; both together are accepted,
and their statements are those of the first and then those of the second.  If the first has no
directives, the second may be read on its own from any supply: where its statements have no labels,
they are the same. -/
theorem collect_append (f : Format) (t₁ t₂ : Text) (supply : Supply) {stmts₁ : List Statement}
    {left₁ : Supply} (h₁ : (f.read t₁ supply).collect = (.ok stmts₁, left₁)) :
    (f.ending (.start supply) t₁).labels.supply = left₁ ∧
    (∀ stmts₂ left₂, (f.readIn (f.ending (.start supply) t₁) t₂).collect = (.ok stmts₂, left₂) →
      (f.read (t₁ ++ Ascii.lineFeed :: t₂) supply).collect = (.ok (stmts₁ ++ stmts₂), left₂)) ∧
    ((∀ t ∈ (ofText f.mode t₁).tokens, t.kind ≠ .prefixDirective ∧ t.kind ≠ .baseDirective) →
      ∀ supply₂ stmts₂ left₂, (f.read t₂ supply₂).collect = (.ok stmts₂, left₂) →
        (∀ s ∈ stmts₂, ∀ l, s.subject ≠ .blank l ∧ s.object ≠ .blank l) →
        (f.read (t₁ ++ Ascii.lineFeed :: t₂) supply).collect.1 = .ok (stmts₁ ++ stmts₂)) := by
  have hin := h₁
  rw [read_eq_readIn] at hin
  refine ⟨?_, fun stmts₂ left₂ h₂ => ?_, fun hplain supply₂ stmts₂ left₂ h₂ hlabels => ?_⟩
  · obtain ⟨-, -, -, -, -, -, hleft, -⟩ := exists_runs_seam hin
    exact hleft.symm
  · rw [read_eq_readIn]
    exact (readIn_append hin h₂).1
  · obtain ⟨stmts, left, hstmts, hpaired⟩ := exists_collect_ending h₁ hplain h₂
    rw [read_eq_readIn, (readIn_append hin hstmts).1, Pairing.eq_of_statements hpaired hlabels]

/-- A text with a prefix and a label, which the one behind it uses, and two texts on their own, the
first of which ends in a comment. -/
theorem collect_append_two :
    let prefixed : Text := "@prefix e: <x:> . _:l e:p 1 ."
    let labelled : Text := "_:l e:p 2 ."
    let one : Text := "<x:a> <x:p> 1 . # one"
    let two : Text := "<x:b> <x:p> 2 ."
    (Format.turtle.read (prefixed ++ Ascii.lineFeed :: labelled) {}).collect =
        (.ok [⟨.blank "l_1", "x:p", .integer "1", none⟩, ⟨.blank "l_1", "x:p", .integer "2", none⟩],
          { labels := 1 }) ∧
      (Format.turtle.read (one ++ Ascii.lineFeed :: two) {}).collect.1 =
        .ok [⟨.iri "x:a", "x:p", .integer "1", none⟩, ⟨.iri "x:b", "x:p", .integer "2", none⟩] := by
  intro prefixed labelled one two
  constructor
  · have h₁ : (Format.turtle.read prefixed {}).collect =
        (.ok [⟨.blank "l_1", "x:p", .integer "1", none⟩], { labels := 1 }) := by decide +kernel
    have h₂ : (Format.turtle.readIn (Format.turtle.ending (.start {}) prefixed) labelled).collect =
        (.ok [⟨.blank "l_1", "x:p", .integer "2", none⟩], { labels := 1 }) := by decide +kernel
    exact (collect_append .turtle prefixed labelled {} h₁).2.1 _ _ h₂
  · have h₁ : (Format.turtle.read one {}).collect =
        (.ok [⟨.iri "x:a", "x:p", .integer "1", none⟩], {}) := by decide +kernel
    have h₂ : (Format.turtle.read two {}).collect =
        (.ok [⟨.iri "x:b", "x:p", .integer "2", none⟩], {}) := by decide +kernel
    have hplain : ∀ t ∈ (ofText .turtle one).tokens,
        t.kind ≠ .prefixDirective ∧ t.kind ≠ .baseDirective := by decide +kernel
    refine (collect_append .turtle one two {} h₁).2.2 hplain {} _ _ h₂ fun s hs l => ?_
    rw [List.mem_singleton.mp hs]
    exact ⟨nofun, nofun⟩

/-- **What is delivered of a text that is followed by anything.**  If the first token of what follows
can be read, or none follows, all statements of an accepted text are delivered in front of what
follows, however that fails, and they are in the graph that is loaded.  If no token can be read there,
all blocks of the text but the last are delivered. -/
theorem receive_append (f : Format) (t₁ t₂ : Text) (supply : Supply) {stmts₁ : List Statement}
    {left₁ : Supply} (h₁ : (f.read t₁ supply).collect = (.ok stmts₁, left₁)) :
    ((ofText f.mode t₂).Sound →
      stmts₁ <+: (f.read (t₁ ++ Ascii.lineFeed :: t₂) supply).receive.statements ∧
      ∀ g, ∀ s ∈ stmts₁,
        (Document.load f (t₁ ++ Ascii.lineFeed :: t₂) g supply).graph.contains s.triple) ∧
    (∀ e, ofText f.mode t₂ = .fault e →
      (f.read (t₁ ++ Ascii.lineFeed :: t₂) supply).receive.statements
          = (f.read t₁ supply).blocks.dropLast.flatten ∧
      (f.read (t₁ ++ Ascii.lineFeed :: t₂) supply).receive.error = some (.lexical
        (e.move (Position.start.after (t₁ ++ [Ascii.lineFeed])).beyond))) := by
  rw [read_eq_readIn] at h₁
  obtain ⟨ts, blocks, -, hruns, hread, rfl, -, hseam⟩ := exists_runs_seam h₁
  constructor
  · intro hsound
    have hfirst : (blocks.map Prod.fst).flatten
        <+: (f.read (t₁ ++ Ascii.lineFeed :: t₂) supply).receive.statements := by
      rw [read_eq_readIn, readIn_eq_run, hseam, run_after hruns (sound_move hsound _),
        Delivery.receive_behind]
      exact List.prefix_append _ _
    refine ⟨hfirst, fun g s hs => Graph.contains_iff.mpr (Graph.mem_triples_addAll.mpr (.inr ?_))⟩
    exact List.mem_map_of_mem (hfirst.subset hs)
  · intro e he
    rw [read_eq_readIn, readIn_eq_run, hseam, he, TokenStream.move, run_fault hruns,
      Delivery.receive_behind, read_eq_readIn, hread, Delivery.blocks_behind, List.map_dropLast,
      Delivery.blocks, List.append_nil]
    exact ⟨List.append_nil _, rfl⟩

/-- What follows begins with a token, but is no statement. -/
theorem receive_append_unfinished :
    let t₁ : Text := "<x:a> <x:p> <x:b> ."
    let t₂ : Text := "<x:c> <x:p>"
    let stmts : List Statement := [⟨.iri "x:a", "x:p", .iri "x:b", none⟩]
    (Format.turtle.read t₁ {}).collect = (.ok stmts, {}) ∧
      stmts <+: (Format.turtle.read (t₁ ++ Ascii.lineFeed :: t₂) {}).receive.statements ∧
      (Format.turtle.read (t₁ ++ Ascii.lineFeed :: t₂) {}).receive.error ≠ none := by
  intro t₁ t₂ stmts
  have h₁ : (Format.turtle.read t₁ {}).collect = (.ok stmts, {}) := by decide +kernel
  have hsound : (ofText Format.turtle.mode t₂).Sound := by
    rw [TokenStream.Sound]
    decide +kernel
  exact ⟨h₁, ((receive_append .turtle t₁ t₂ {} h₁).1 hsound).1, by decide +kernel⟩

/-- What follows begins with an IRI that is not closed: the statement in front of it is lost. -/
theorem receive_append_unclosed :
    let t₁ : Text := "<http://ex/a> <http://ex/p> <http://ex/b> ."
    let t₂ : Text := "<http://ex/c"
    let stmts : List Statement := [⟨.iri "http://ex/a", "http://ex/p", .iri "http://ex/b", none⟩]
    (Format.turtle.read t₁ {}).collect = (.ok stmts, {}) ∧
      ¬ stmts <+: (Format.turtle.read (t₁ ++ Ascii.lineFeed :: t₂) {}).receive.statements := by
  decide +kernel

end Format

end TripleStore
