import DataBinding.Proofs.Sharing.Hoisting

/-!
# Meanings of shared expressions

Sharing goes by keys, so it preserves every meaning that the keys determine. Whatever stands in the shared
expressions, variables included, stands for a part of the given expressions: it has the written form and
the meaning of that part once the variables have theirs. What is written alike then stands for parts that
are written alike, and the next variable again takes the place of expressions with one meaning.
-/
namespace DataBinding
open Text

/-- To give variables the written forms of their values is to spell their names in another way. -/
theorem Semantics.withLocals_naming {names : NameKind} {σ : String → String} {ls : List Local}
    (hσ : names.Spells σ) (hls : ∀ l ∈ ls, names.has l.name) :
    ∃ σ', names.Spells σ' ∧ (naming σ).withLocals ls = naming σ' := by
  induction ls generalizing σ with
  | nil => exact ⟨σ, hσ, rfl⟩
  | cons l ls ih =>
    obtain ⟨hl, hls⟩ := List.forall_mem_cons.mp hls
    obtain ⟨σ', hσ', hnaming⟩ := ih (hσ.update hl (l.value.meaning (naming σ))) hls
    exact ⟨σ', hσ', by rw [← hnaming, ← assign_naming]; rfl⟩

namespace Sharing

variable {α : Type} {f : Semantics α} {names : NameKind} {es : List Expr} {s : Sharing} {o : Occurrences}
  {e m : Expr}

/-- Every part stands for a part of the given expressions, in its written form and in its meaning. -/
def Traced (walk : Expr → List Expr) (f : Semantics α) (es : List Expr) (s : Sharing) : Prop :=
  ∀ e ∈ s.all, ∀ n ∈ walk e, ∃ e₀ ∈ es, ∃ n₀ ∈ walk e₀,
    n.meaning (Semantics.withLocals Form.key s.locals) = n₀.key ∧
      n.meaning (f.withLocals s.locals) = n₀.meaning f

theorem traced_nil (walk : Expr → List Expr) (f : Semantics α) (es : List Expr) :
    Traced walk f es ⟨[], es⟩ := by
  intro e he n hn
  exact ⟨e, by simpa [all] using he, n, hn, Expr.meaning_key n, rfl⟩

/-- Have expressions that are written alike one meaning? -/
def Determined (f : Semantics α) (es : List Expr) : Prop :=
  ∀ e ∈ es, ∀ n ∈ e.nodes, ∀ e' ∈ es, ∀ n' ∈ e'.nodes, n.key = n'.key → n.meaning f = n'.meaning f

/-- What holds of shared expressions when the keys determine the meanings. -/
structure Preserved (names : NameKind) (f : Semantics α) (es : List Expr) (s : Sharing) : Prop where
  sound : s.Sound names es
  parts : s.Traced Expr.nodes f es
  eager : s.Traced Expr.eagerNodes f es
  same : s.exprs.map (Expr.meaning (f.withLocals s.locals)) = es.map (Expr.meaning f)

variable (hlocal : ∀ n, names.has (localName n)) (hes : ∀ e ∈ es, ∀ n, e.mentions (localName n) = false)
  (ho : s.Occurs o)

namespace Sound

variable (h : s.Sound names es)

include hlocal h ho in
/-- Expressions with the key of what is shared are still written alike with the values of the variables. -/
theorem agree_key : s.Agree Form.key o := by
  intro e he n hn hkey
  obtain ⟨σ, hσ, hnaming⟩ := Semantics.withLocals_naming names.spells_id (h.has_name hlocal)
  rw [← Semantics.naming_id, hnaming]
  exact ((h.written e he).of_mem_nodes hn).meaning_naming_eq (ho.written h.written) hσ
    ((h.worded e he).of_mem_nodes hn) (h.first_worded ho) (hkey.trans ho.key_eq.symm)

include hlocal h ho in
/-- What is written alike stands for parts that are written alike. -/
theorem agree_of_traced (hparts : s.Traced Expr.nodes f es) (hf : Determined f es) : s.Agree f o := by
  intro e he n hn hkey
  obtain ⟨e', he', hfirst⟩ := ho.first_mem
  obtain ⟨e₀, he₀, n₀, hn₀, hwritten, hmeaning⟩ := hparts e he n hn
  obtain ⟨e₁, he₁, n₁, hn₁, hwritten₁, hmeaning₁⟩ := hparts e' he' o.first hfirst
  rw [hmeaning, hmeaning₁]
  apply hf e₀ he₀ n₀ hn₀ e₁ he₁ n₁ hn₁
  rw [← hwritten, ← hwritten₁]
  exact h.agree_key hlocal ho e he n hn hkey

include hlocal hes h ho

/-- What is there after a round has the meaning of something that was there before it. -/
theorem exists_before {walk : Expr → List Expr} {count : Form → Nat → Nat} (hwalk : Expr.IsWalk walk count)
    (hfirst : ∃ e ∈ s.all, o.first ∈ walk e) (he : e ∈ (s.hoist o).all) (hm : m ∈ walk e) :
    ∃ e' ∈ s.all, ∃ n ∈ walk e', ∀ {α : Type} {f : Semantics α}, s.Agree f o →
      m.meaning (f.withLocals (s.hoist o).locals) = n.meaning (f.withLocals s.locals) := by
  rcases mem_all_hoist.mp he with rfl | ⟨e', he', rfl⟩
  · obtain ⟨e', he', hfirst⟩ := hfirst
    have hmem := hwalk.trans hm hfirst
    refine ⟨e', he', m, hmem, fun hagree => ?_⟩
    rw [h.withLocals_hoist hlocal hes ho hagree]
    exact Expr.meaning_assign (Expr.not_mentions_of_mem_nodes (hwalk.mem_nodes hmem) (h.fresh hes e' he'))
  · rcases hwalk.mem_replaceKey hm with hvar | ⟨n, hn, -, rfl⟩
    · -- the new variable stands for what is shared
      obtain ⟨e', he', hfirst⟩ := hfirst
      refine ⟨e', he', o.first, hfirst, fun hagree => ?_⟩
      obtain rfl : m = (s.hoisted o).reference := List.mem_singleton.mp (hwalk.mem_nodes hvar)
      rw [h.withLocals_hoist hlocal hes ho hagree, Local.reference, Expr.var, Expr.meaning_eq,
        Semantics.assign, if_pos (Form.isVar_iff.mpr rfl)]
    · exact ⟨e', he', n, hn, fun hagree => h.meaning_hoist hlocal hes ho hagree he' (hwalk.mem_nodes hn)⟩

theorem traced_hoist {walk : Expr → List Expr} {count : Form → Nat → Nat} (hwalk : Expr.IsWalk walk count)
    (hfirst : ∃ e ∈ s.all, o.first ∈ walk e) (hagree : s.Agree f o) (ht : s.Traced walk f es) :
    (s.hoist o).Traced walk f es := by
  intro e he n hn
  obtain ⟨e', he', n', hn', hbefore⟩ := h.exists_before hlocal hes ho hwalk hfirst he hn
  obtain ⟨e₀, he₀, n₀, hn₀, hwritten, hmeaning⟩ := ht e' he' n' hn'
  refine ⟨e₀, he₀, n₀, hn₀, ?_, ?_⟩
  · rw [hbefore (h.agree_key hlocal ho), hwritten]
  · rw [hbefore hagree, hmeaning]

end Sound

include hlocal hes ho in
theorem Preserved.hoist (h : s.Preserved names f es) (hf : Determined f es) :
    (s.hoist o).Preserved names f es := by
  have hagree := h.sound.agree_of_traced hlocal ho h.parts hf
  refine ⟨h.sound.hoist hlocal hes ho, ?_, ?_, ?_⟩
  · exact h.sound.traced_hoist hlocal hes ho Expr.isWalk_nodes ho.first_mem hagree h.parts
  · exact h.sound.traced_hoist hlocal hes ho Expr.isWalk_eagerNodes ho.first_eager hagree h.eager
  · rw [← h.same, hoist_exprs, List.map_map]
    exact List.map_congr_left fun e he =>
      h.sound.meaning_hoist hlocal hes ho hagree (expr_mem_all he) (Expr.self_mem_nodes e)

include hlocal hes in
theorem preserved_ofExprs (hwritten : ∀ e ∈ es, e.Written) (hworded : ∀ e ∈ es, e.IsWorded names)
    (hf : Determined f es) : (ofExprs es).Preserved names f es :=
  hoistAll_induction (fun _ _ h ho => h.hoist hlocal hes ho hf) _
    ⟨sound_nil hwritten hworded, traced_nil _ _ _, traced_nil _ _ _, rfl⟩

end Sharing

end DataBinding
