import TripleStore.Key.Term
import Mathlib.Tactic

/-!
# Keys that tell terms apart

Keys have all the same length, so keys that stand one after the other can be taken apart again.

* `TermKey.prefix_joinKeys_iff`: a row of keys starts with a key if its first key is that one.
* `splitStatementKey_statementKey`: the four keys of a statement come back.
* `TermKey.injOn_ofTerm`: **the keys of terms differ**, if their texts and the digests of these do.
-/

namespace TripleStore

namespace TermKey

variable {a b : TermKey} {rest rest' : Text}

theorem bytes_injective : Function.Injective bytes := by
  rintro ⟨x, hx⟩ ⟨y, hy⟩ h
  cases (h : x = y)
  rfl

theorem bytes_append_inj (h : a.bytes ++ rest = b.bytes ++ rest') : a = b ∧ rest = rest' := by
  obtain ⟨hb, hr⟩ := List.append_inj h (a.size.trans b.size.symm)
  exact ⟨bytes_injective hb, hr⟩

theorem prefix_iff : a.bytes <+: b.bytes ++ rest ↔ a = b := by
  constructor
  · rintro ⟨tail, h⟩
    exact (bytes_append_inj h).1
  · rintro rfl
    exact List.prefix_append _ _

@[simp] theorem ofBytes_append (k : TermKey) (rest : Text) : ofBytes (k.bytes ++ rest) = k := by
  apply bytes_injective
  show ((k.bytes ++ rest) ++ List.replicate 17 0).take 17 = k.bytes
  rw [List.append_assoc, List.take_append_of_le_length (by rw [k.size]),
    List.take_of_length_le (by rw [k.size])]

theorem drop_append (k : TermKey) (rest : Text) : (k.bytes ++ rest).drop 17 = rest :=
  List.drop_left' k.size

/-- Terms are told apart by their keys if they are by their texts and these by their digests. -/
theorem injOn_ofTerm {T : Set Term} (hrender : Set.InjOn Term.render T)
    (hdigest : Set.InjOn digest (Term.render '' T)) : Set.InjOn ofTerm T := by
  intro t ht u hu h
  have hbytes : t.kind.code :: digest t.render = u.kind.code :: digest u.render :=
    congrArg bytes h
  have htext := hdigest ⟨t, ht, rfl⟩ ⟨u, hu, rfl⟩ (List.cons.inj hbytes).2
  exact hrender ht hu htext

/-- Names that are written the same have the same key. -/
theorem ofTerm_iri_congr {a b : Iri} (h : renderIri a = renderIri b) :
    ofTerm (.iri a) = .ofTerm (.iri b) := by
  apply bytes_injective
  exact congrArg (fun text => (Term.iri a).kind.code :: digest text) h

end TermKey

@[simp] theorem joinKeys_cons (k : TermKey) (keys : List TermKey) :
    joinKeys (k :: keys) = k.bytes ++ joinKeys keys := rfl

theorem length_joinKeys (keys : List TermKey) : (joinKeys keys).length = 17 * keys.length := by
  induction keys with
  | nil => rfl
  | cons k keys ih =>
    rw [joinKeys_cons, List.length_append, k.size, ih, List.length_cons]
    omega

theorem joinKeys_injective : Function.Injective joinKeys := by
  intro keys keys' h
  have hlen := congrArg List.length h
  rw [length_joinKeys, length_joinKeys] at hlen
  induction keys generalizing keys' with
  | nil =>
    cases keys' with
    | nil => rfl
    | cons k' keys' => simp at hlen
  | cons k keys ih =>
    cases keys' with
    | nil => simp at hlen
    | cons k' keys' =>
      obtain ⟨rfl, hrest⟩ := TermKey.bytes_append_inj h
      rw [ih hrest (by simpa using hlen)]

theorem TermKey.prefix_joinKeys_iff {k k' : TermKey} {keys : List TermKey} :
    k.bytes <+: joinKeys (k' :: keys) ↔ k = k' := TermKey.prefix_iff

@[simp] theorem splitStatementKey_statementKey (c s p o : TermKey) :
    splitStatementKey (statementKey c s p o) = .ok (c, s, p, o) := by
  have hlen : (statementKey c s p o).length = 4 * TermKey.width := length_joinKeys _
  have h₁ : (statementKey c s p o).drop 17 = joinKeys [s, p, o] := c.drop_append _
  have h₂ : (statementKey c s p o).drop 34 = joinKeys [p, o] := by
    rw [show 34 = 17 + 17 from rfl, ← List.drop_drop, h₁]
    exact s.drop_append _
  have h₃ : (statementKey c s p o).drop 51 = joinKeys [o] := by
    rw [show 51 = 34 + 17 from rfl, ← List.drop_drop, h₂]
    exact p.drop_append _
  rw [splitStatementKey, if_pos hlen, h₁, h₂, h₃]
  simp [statementKey]

/-- What is kept under the key of a term is read back if the text of the term is. -/
theorem decodeTerm_ofTerm {t : Term} (h : NTriples.parseTerm t.render = .ok t) :
    decodeTerm (.ofTerm t) t.render = .ok t := by
  simp only [decodeTerm, h]
  exact if_pos rfl

end TripleStore
