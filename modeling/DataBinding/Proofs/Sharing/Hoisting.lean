import DataBinding.Proofs.Expr.Wording
import DataBinding.Proofs.Membership
import DataBinding.Sharing
import Mathlib

/-!
# Local variables of shared expressions

Sharing puts one variable after the other in the places of common subexpressions. Each variable is declared
behind those that its value mentions and before those whose values mention it, so the variables get their
meanings in order of declaration. As long as the expressions that a variable replaces have one meaning,
nothing changes its meaning.
-/
namespace DataBinding
open Text

variable {α : Type} {f g : Semantics α} {e : Expr} {ls : List Local}

/-! ## Declared variables -/

/-- The semantics in which variables have the meanings of their values, given one after the other. -/
def Semantics.withLocals (f : Semantics α) (ls : List Local) : Semantics α :=
  ls.foldl (fun g l => g.assign l.name (l.value.meaning g)) f

theorem Semantics.withLocals_append (f : Semantics α) (ls ls' : List Local) :
    f.withLocals (ls ++ ls') = (f.withLocals ls).withLocals ls' :=
  List.foldl_append

theorem Expr.meaning_withLocals (h : ∀ l ∈ ls, e.mentions l.name = false) :
    e.meaning (f.withLocals ls) = e.meaning f := by
  induction ls generalizing f with
  | nil => rfl
  | cons l ls ih =>
    obtain ⟨hl, hls⟩ := List.forall_mem_cons.mp h
    exact (ih hls).trans (Expr.meaning_assign hl)

/-- No variable's value mentions the variable itself or a later one. -/
structure Local.Scoped (ls : List Local) : Prop where
  own : ∀ l ∈ ls, l.value.mentions l.name = false
  later : ls.Pairwise fun l l' => l.value.mentions l'.name = false

namespace Local.Scoped

variable {l : Local} {ls' : List Local}

theorem head (h : Scoped (l :: ls)) : ∀ l' ∈ l :: ls, l.value.mentions l'.name = false :=
  List.forall_mem_cons.mpr ⟨h.own l List.mem_cons_self, (List.pairwise_cons.mp h.later).1⟩

theorem tail (h : Scoped (l :: ls)) : Scoped ls :=
  ⟨fun l' hl' => h.own l' (List.mem_cons_of_mem l hl'), (List.pairwise_cons.mp h.later).2⟩

theorem right (h : Scoped (ls ++ ls')) : Scoped ls' :=
  ⟨fun l hl => h.own l (List.mem_append_right ls hl), (List.pairwise_append.mp h.later).2.1⟩

/-- A value mentions only variables that are declared before it. -/
theorem lt_of_mentions (h : Scoped ls) {i j : Nat} {l' : Local} (hi : ls[i]? = some l) (hj : ls[j]? = some l')
    (hmentions : l.value.mentions l'.name) : j < i := by
  obtain ⟨hilt, rfl⟩ := List.getElem?_eq_some_iff.mp hi
  obtain ⟨hjlt, rfl⟩ := List.getElem?_eq_some_iff.mp hj
  by_contra hle
  rcases Nat.eq_or_lt_of_le (Nat.le_of_not_lt hle) with rfl | hlt
  · simp [h.own _ (List.getElem_mem hilt)] at hmentions
  · simp [List.pairwise_iff_getElem.mp h.later i j hilt hjlt hlt] at hmentions

end Local.Scoped

/-! ## One more variable -/

namespace Sharing

def localName (n : Nat) : String := "value" ++ toString n

def all (s : Sharing) : List Expr := s.exprs ++ s.locals.map (·.value)

def hoisted (s : Sharing) (o : Occurrences) : Local := {
  name := localName (s.locals.length + 1), type := o.first.type.withNullable o.nullable, value := o.first }

/-- A variable with its value as it is when another variable stands in the places of a key. -/
def rewritten (k : String) (new l : Local) : Local :=
  { l with value := Expr.replaceKey k new.reference l.value }

variable {s : Sharing} {o : Occurrences} {k : String} {new : Local}

theorem hoist_exprs : (s.hoist o).exprs = s.exprs.map (Expr.replaceKey o.key (s.hoisted o).reference) := rfl

theorem hoist_locals :
    (s.hoist o).locals = declare (s.hoisted o) (s.locals.map (rewritten o.key (s.hoisted o))) := rfl

theorem rewritten_of_forall_ne {l : Local} (h : ∀ n ∈ l.value.nodes, n.key ≠ k) :
    rewritten k new l = l := by
  rw [rewritten, Expr.replaceKey_of_forall_ne h]

/-- A variable brings no name into a value but its own. -/
theorem not_mentions_rewritten {l : Local} {x : String} (h : l.value.mentions x = false)
    (hx : x ≠ new.name) : (rewritten k new l).value.mentions x = false := by
  by_contra hmentions
  rcases Expr.mentions_of_replaceKey (Bool.not_eq_false _ ▸ hmentions) with hnew | hold
  · rw [Local.reference, Expr.mentions_var, beq_iff_eq] at hnew
    exact hx hnew.symm
  · simp [h] at hold

theorem localName_injective : Function.Injective localName := by
  intro a b h
  exact Nat.repr_inj.mp ((String.append_right_inj _).mp h)

/-- A declaration goes before the first value that refers to it. -/
theorem declare_split (new : Local) (ls : List Local) :
    ∃ front back, ls = front ++ back ∧ declare new ls = front ++ new :: back ∧
      (∀ l ∈ front, l.value.containsKey new.reference.key = false) ∧
      ∀ l ∈ back.head?, l.value.containsKey new.reference.key = true := by
  induction ls with
  | nil => exact ⟨[], [], rfl, rfl, by simp, by simp⟩
  | cons l ls ih =>
    by_cases h : l.value.containsKey new.reference.key
    · exact ⟨[], l :: ls, rfl, by simp [declare, h], by simp, by simp [h]⟩
    · obtain ⟨front, back, hls, hdeclare, hfront, hback⟩ := ih
      refine ⟨l :: front, back, by simp [hls], by simp [declare, h, hdeclare], ?_, hback⟩
      exact List.forall_mem_cons.mpr ⟨by simpa using h, hfront⟩

/-- The variables behind a new one keep their meanings, with the new one in their values. -/
theorem withLocals_rewritten {a : α} (hscoped : Local.Scoped ls)
    (hfresh : ∀ l ∈ ls, l.name ≠ new.name ∧ l.value.mentions new.name = false)
    (hsame : ∀ l ∈ ls, ∀ n ∈ l.value.nodes, n.key = k → n.meaning (f.withLocals ls) = a) :
    (f.assign new.name a).withLocals (ls.map (rewritten k new)) = (f.withLocals ls).assign new.name a := by
  induction ls generalizing f with
  | nil => rfl
  | cons l ls ih =>
    obtain ⟨⟨hname, hmentions⟩, hfresh⟩ := List.forall_mem_cons.mp hfresh
    obtain ⟨hl, hls⟩ := List.forall_mem_cons.mp hsame
    have hvalue : (rewritten k new l).value.meaning (f.assign new.name a) = l.value.meaning f := by
      refine Expr.meaning_replaceKey_var (fun n hn hkey => ?_) hmentions
      rw [← hl n hn hkey]
      exact (Expr.meaning_withLocals fun l' hl' =>
        Expr.not_mentions_of_mem_nodes hn (hscoped.head l' hl')).symm
    have hstep : (f.assign new.name a).withLocals ((l :: ls).map (rewritten k new)) =
        ((f.assign new.name a).assign l.name ((rewritten k new l).value.meaning (f.assign new.name a))).withLocals
          (ls.map (rewritten k new)) := rfl
    rw [hstep, hvalue, f.assign_comm hname.symm, ih hscoped.tail hfresh hls]
    rfl

/-! ## What every round keeps -/

theorem declare_perm (new : Local) (ls : List Local) : (declare new ls).Perm (new :: ls) := by
  obtain ⟨front, back, rfl, hdeclare, -, -⟩ := declare_split new ls
  rw [hdeclare]
  exact List.perm_middle

theorem length_locals_hoist : (s.hoist o).locals.length = s.locals.length + 1 := by
  rw [hoist_locals, (declare_perm _ _).length_eq, List.length_cons, List.length_map]

theorem mem_locals_hoist {l : Local} :
    l ∈ (s.hoist o).locals ↔ l = s.hoisted o ∨ ∃ l' ∈ s.locals, rewritten o.key (s.hoisted o) l' = l := by
  rw [hoist_locals, (declare_perm _ _).mem_iff, List.mem_cons, List.mem_map]

theorem mem_all_hoist :
    e ∈ (s.hoist o).all ↔ e = o.first ∨ ∃ e' ∈ s.all, Expr.replaceKey o.key (s.hoisted o).reference e' = e := by
  simp only [all, List.mem_append, List.mem_map, hoist_exprs, mem_locals_hoist]
  constructor
  · rintro (⟨e', he', rfl⟩ | ⟨l, rfl | ⟨l', hl', rfl⟩, rfl⟩)
    · exact Or.inr ⟨e', Or.inl he', rfl⟩
    · exact Or.inl rfl
    · exact Or.inr ⟨l'.value, Or.inr ⟨l', hl', rfl⟩, rfl⟩
  · rintro (rfl | ⟨e', he' | ⟨l', hl', rfl⟩, rfl⟩)
    · exact Or.inr ⟨s.hoisted o, Or.inl rfl, rfl⟩
    · exact Or.inl ⟨e', he', rfl⟩
    · exact Or.inr ⟨rewritten o.key (s.hoisted o) l', Or.inr ⟨l', hl', rfl⟩, rfl⟩

theorem expr_mem_all (he : e ∈ s.exprs) : e ∈ s.all := List.mem_append_left _ he

theorem value_mem_all {l : Local} (hl : l ∈ s.locals) : l.value ∈ s.all :=
  List.mem_append_right _ (List.mem_map_of_mem hl)

/-- What holds of shared expressions and their variables. -/
structure Sound (names : NameKind) (es : List Expr) (s : Sharing) : Prop where
  written : ∀ e ∈ s.all, e.Written
  worded : ∀ e ∈ s.all, e.IsWorded names
  numbered : ∀ l ∈ s.locals, ∃ n ≤ s.locals.length, l.name = localName n
  distinct : (s.locals.map (·.name)).Nodup
  ordered : Local.Scoped s.locals
  /-- No variable comes from nowhere. -/
  known : ∀ e ∈ s.all, ∀ x, e.mentions x → (∃ e₀ ∈ es, e₀.mentions x) ∨ ∃ l ∈ s.locals, l.name = x
  used : ∀ l ∈ s.locals, ∃ e ∈ s.all, e.mentions l.name

/-- Something that occurs in the expressions and values and is always evaluated. -/
structure Occurs (s : Sharing) (o : Occurrences) : Prop where
  first_eager : ∃ e ∈ s.all, o.first ∈ e.eagerNodes
  key_eq : o.first.key = o.key

/-- Have the places of what is to be shared one meaning? -/
def Agree (f : Semantics α) (s : Sharing) (o : Occurrences) : Prop :=
  ∀ e ∈ s.all, ∀ n ∈ e.nodes, n.key = o.key →
    n.meaning (f.withLocals s.locals) = o.first.meaning (f.withLocals s.locals)

theorem Occurs.first_mem (ho : s.Occurs o) : ∃ e ∈ s.all, o.first ∈ e.nodes := by
  obtain ⟨e, he, hfirst⟩ := ho.first_eager
  exact ⟨e, he, Expr.isWalk_eagerNodes.mem_nodes hfirst⟩

theorem Occurs.written (ho : s.Occurs o) (h : ∀ e ∈ s.all, e.Written) : o.first.Written := by
  obtain ⟨e, he, hfirst⟩ := ho.first_mem
  exact (h e he).of_mem_nodes hfirst

theorem written_hoist (ho : s.Occurs o) (h : ∀ e ∈ s.all, e.Written) : ∀ e ∈ (s.hoist o).all, e.Written := by
  intro e he
  rcases mem_all_hoist.mp he with rfl | ⟨e', he', rfl⟩
  · exact ho.written h
  · exact (h e' he').replaceKey (.var _ _)

namespace Sound

variable {names : NameKind} {es : List Expr} (hlocal : ∀ n, names.has (localName n))
  (hes : ∀ e ∈ es, ∀ n, e.mentions (localName n) = false) (h : s.Sound names es) (ho : s.Occurs o)

include h

theorem fresh_name : ∀ l ∈ s.locals, l.name ≠ (s.hoisted o).name := by
  intro l hl heq
  obtain ⟨n, hn, hname⟩ := h.numbered l hl
  have := localName_injective (hname.symm.trans heq)
  omega

include hes in
theorem fresh : ∀ e ∈ s.all, e.mentions (s.hoisted o).name = false := by
  intro e he
  by_contra hmentions
  rcases h.known e he _ (by simpa using hmentions) with ⟨e₀, he₀, hx⟩ | ⟨l, hl, hname⟩
  · simp [hoisted, hes e₀ he₀] at hx
  · exact h.fresh_name l hl hname

include hlocal in
theorem has_name : ∀ l ∈ s.locals, names.has l.name := by
  intro l hl
  obtain ⟨n, -, hname⟩ := h.numbered l hl
  rw [hname]
  exact hlocal n

include ho in
theorem first_worded : o.first.IsWorded names := by
  obtain ⟨e, he, hfirst⟩ := ho.first_mem
  exact (h.worded e he).of_mem_nodes hfirst

include hlocal hes in
/-- A value that refers to the new variable contains what the variable stands for. -/
theorem exists_key_of_containsKey (he : e ∈ s.all)
    (hcontains : (Expr.replaceKey k (s.hoisted o).reference e).containsKey (s.hoisted o).reference.key) :
    ∃ n ∈ e.nodes, n.key = k := by
  by_contra hnone
  rw [Expr.replaceKey_of_forall_ne fun n hn hkey => hnone ⟨n, hn, hkey⟩] at hcontains
  obtain ⟨m, hm, hkey⟩ := Expr.containsKey_iff.mp hcontains
  have hvar : m.form.isVar (s.hoisted o).name :=
    ((h.written e he).of_mem_nodes hm).isVar_of_key_eq ((h.worded e he).of_mem_nodes hm) (hlocal _) hkey
  simp [Expr.isVar_of_not_mentions (h.fresh hes e he) hm] at hvar

include hlocal ho in
theorem first_mentions {n : Expr} (he : e ∈ s.all) (hn : n ∈ e.nodes) (hkey : n.key = o.key) {l : Local}
    (hl : l ∈ s.locals) : o.first.mentions l.name = n.mentions l.name := by
  have hkeys : o.first.key = n.key := ho.key_eq.trans hkey.symm
  have hwritten := (h.written e he).of_mem_nodes hn
  have hworded := (h.worded e he).of_mem_nodes hn
  rw [Bool.eq_iff_iff]
  constructor
  · exact (ho.written h.written).mentions_of_key_eq hwritten (h.first_worded ho) hworded hkeys
      (h.has_name hlocal l hl)
  · exact hwritten.mentions_of_key_eq (ho.written h.written) hworded (h.first_worded ho) hkeys.symm
      (h.has_name hlocal l hl)

include hlocal hes ho in
/-- The new variable goes behind all that its value mentions and before all that mention it. -/
theorem hoist_split :
    ∃ front back, s.locals = front ++ back ∧
      (s.hoist o).locals = front ++ s.hoisted o :: back.map (rewritten o.key (s.hoisted o)) ∧
      (∀ l ∈ front, ∀ n ∈ l.value.nodes, n.key ≠ o.key) ∧
      ∀ l ∈ back, o.first.mentions l.name = false := by
  obtain ⟨front', back', hlocals, hdeclare, hfront, hback⟩ :=
    declare_split (s.hoisted o) (s.locals.map (rewritten o.key (s.hoisted o)))
  obtain ⟨front, back, hsplit, rfl, rfl⟩ := List.map_eq_append_iff.mp hlocals
  have hkeys : ∀ l ∈ front, ∀ n ∈ l.value.nodes, n.key ≠ o.key := by
    intro l hl n hn hkey
    have hmem := Expr.nodes_subset_replaceKey hn hkey _ (Expr.self_mem_nodes (s.hoisted o).reference)
    have hcontains := Expr.containsKey_iff.mpr ⟨_, hmem, rfl⟩
    exact Bool.false_ne_true ((hfront _ (List.mem_map_of_mem hl)).symm.trans hcontains)
  have hsame : front.map (rewritten o.key (s.hoisted o)) = front :=
    (List.map_congr_left fun l hl => rewritten_of_forall_ne (hkeys l hl)).trans (List.map_id front)
  refine ⟨front, back, hsplit, by rw [hoist_locals, hdeclare, hsame], hkeys, ?_⟩
  cases back with
  | nil => simp
  | cons l back =>
    -- the value of the first variable behind contains what the new one stands for
    have hl : l ∈ s.locals := by simp [hsplit]
    obtain ⟨n, hn, hkey⟩ := h.exists_key_of_containsKey hlocal hes (value_mem_all hl) (hback _ rfl)
    intro l' hl'
    have hl'' : l' ∈ s.locals := by
      rw [hsplit]
      exact List.mem_append_right front hl'
    rw [h.first_mentions hlocal ho (value_mem_all hl) hn hkey hl'']
    have hordered : Local.Scoped (front ++ l :: back) := hsplit ▸ h.ordered
    exact Expr.not_mentions_of_mem_nodes hn (hordered.right.head l' hl')

include hlocal hes ho in
/-- The variables behind the new one keep their meanings, and so do those before it. -/
theorem withLocals_hoist (hagree : s.Agree f o) :
    f.withLocals (s.hoist o).locals =
      (f.withLocals s.locals).assign (s.hoisted o).name (o.first.meaning (f.withLocals s.locals)) := by
  obtain ⟨front, back, hsplit, hlocals, -, hback⟩ := h.hoist_split hlocal hes ho
  have hmem : ∀ l ∈ back, l ∈ s.locals := fun l hl => hsplit ▸ List.mem_append_right front hl
  have hfirst : o.first.meaning (f.withLocals front) = o.first.meaning (f.withLocals s.locals) := by
    rw [hsplit, Semantics.withLocals_append, Expr.meaning_withLocals hback]
  have hordered : Local.Scoped (front ++ back) := hsplit ▸ h.ordered
  have hvalues : ∀ l ∈ back, ∀ n ∈ l.value.nodes, n.key = o.key →
      n.meaning ((f.withLocals front).withLocals back) = o.first.meaning (f.withLocals s.locals) := by
    intro l hl n hn hkey
    rw [← Semantics.withLocals_append, ← hsplit]
    exact hagree _ (value_mem_all (hmem l hl)) n hn hkey
  calc f.withLocals (s.hoist o).locals
      = ((f.withLocals front).assign (s.hoisted o).name (o.first.meaning (f.withLocals front))).withLocals
          (back.map (rewritten o.key (s.hoisted o))) := by
        rw [hlocals, Semantics.withLocals_append]
        rfl
    _ = ((f.withLocals front).withLocals back).assign (s.hoisted o).name
          (o.first.meaning (f.withLocals s.locals)) := by
        rw [hfirst]
        exact withLocals_rewritten hordered.right
          (fun l hl => ⟨h.fresh_name l (hmem l hl), h.fresh hes _ (value_mem_all (hmem l hl))⟩) hvalues
    _ = (f.withLocals s.locals).assign (s.hoisted o).name (o.first.meaning (f.withLocals s.locals)) := by
        rw [← Semantics.withLocals_append, ← hsplit]

include hlocal hes ho in
/-- Nothing changes its meaning when the expressions that the new variable replaces have one meaning. -/
theorem meaning_hoist (hagree : s.Agree f o) {n : Expr} (he : e ∈ s.all) (hn : n ∈ e.nodes) :
    (Expr.replaceKey o.key (s.hoisted o).reference n).meaning (f.withLocals (s.hoist o).locals) =
      n.meaning (f.withLocals s.locals) := by
  rw [h.withLocals_hoist hlocal hes ho hagree]
  exact Expr.meaning_replaceKey_var (fun m hm => hagree e he m (Expr.mem_nodes_trans hm hn))
    (Expr.not_mentions_of_mem_nodes hn (h.fresh hes e he))

include hlocal hes ho in
theorem ordered_hoist : Local.Scoped (s.hoist o).locals := by
  obtain ⟨front, back, hsplit, hlocals, hfront, hback⟩ := h.hoist_split hlocal hes ho
  have hordered : Local.Scoped (front ++ back) := hsplit ▸ h.ordered
  have hmem : ∀ l ∈ front ++ back, l ∈ s.locals := fun l hl => hsplit ▸ hl
  have hfresh : ∀ l ∈ front ++ back, l.value.mentions (s.hoisted o).name = false := fun l hl =>
    h.fresh hes _ (value_mem_all (hmem l hl))
  have hfirst : o.first.mentions (s.hoisted o).name = false := by
    obtain ⟨e, he, hn⟩ := ho.first_mem
    exact Expr.not_mentions_of_mem_nodes hn (h.fresh hes e he)
  have hnames : ∀ l ∈ front ++ back, l.name ≠ (s.hoisted o).name := fun l hl => h.fresh_name l (hmem l hl)
  obtain ⟨hpairFront, hpairBack, hpairs⟩ := List.pairwise_append.mp hordered.later
  rw [hlocals]
  constructor
  · intro l hl
    rcases List.mem_append.mp hl with hl | hl
    · exact hordered.own l (List.mem_append_left back hl)
    · rcases List.mem_cons.mp hl with rfl | hl
      · exact hfirst
      · obtain ⟨l', hl', rfl⟩ := List.mem_map.mp hl
        have hl' := List.mem_append_right front hl'
        exact not_mentions_rewritten (hordered.own l' hl') (hnames l' hl')
  · refine List.pairwise_append.mpr ⟨hpairFront, List.pairwise_cons.mpr ⟨?_, ?_⟩, ?_⟩
    · exact List.forall_mem_map.mpr hback
    · refine List.pairwise_map.mpr (hpairBack.imp_of_mem fun {l l'} _ hl' hnot => ?_)
      exact not_mentions_rewritten hnot (hnames l' (List.mem_append_right front hl'))
    · intro l hl l' hl'
      rcases List.mem_cons.mp hl' with rfl | hl'
      · exact hfresh l (List.mem_append_left back hl)
      · obtain ⟨l₀, hl₀, rfl⟩ := List.mem_map.mp hl'
        exact hpairs l hl l₀ hl₀

include hlocal hes ho in
theorem distinct_hoist : ((s.hoist o).locals.map (·.name)).Nodup := by
  obtain ⟨front, back, hsplit, hlocals, -, -⟩ := h.hoist_split hlocal hes ho
  have hnames : ((s.hoist o).locals.map (·.name)) =
      front.map (·.name) ++ (s.hoisted o).name :: back.map (·.name) := by
    simp [hlocals, rewritten, Function.comp_def]
  rw [hnames, List.nodup_middle, ← List.map_append, ← hsplit]
  refine List.nodup_cons.mpr ⟨fun hmem => ?_, h.distinct⟩
  obtain ⟨l, hl, hname⟩ := List.mem_map.mp hmem
  exact h.fresh_name l hl hname

omit h in
theorem exists_local_hoist {l : Local} (hl : l ∈ s.locals) : ∃ l' ∈ (s.hoist o).locals, l'.name = l.name :=
  ⟨_, mem_locals_hoist.mpr (Or.inr ⟨l, hl, rfl⟩), rfl⟩

include ho in
theorem known_hoist : ∀ e ∈ (s.hoist o).all, ∀ x, e.mentions x →
    (∃ e₀ ∈ es, e₀.mentions x) ∨ ∃ l ∈ (s.hoist o).locals, l.name = x := by
  intro e he x hx
  -- a variable that was there before is still declared
  have hold : ∀ e' ∈ s.all, e'.mentions x →
      (∃ e₀ ∈ es, e₀.mentions x) ∨ ∃ l ∈ (s.hoist o).locals, l.name = x := by
    intro e' he' hx'
    rcases h.known e' he' x hx' with hes | ⟨l, hl, rfl⟩
    · exact Or.inl hes
    · exact Or.inr (exists_local_hoist hl)
  rcases mem_all_hoist.mp he with rfl | ⟨e', he', rfl⟩
  · obtain ⟨e', he', hfirst⟩ := ho.first_mem
    exact hold e' he' (Expr.mentions_of_mem_nodes hfirst hx)
  · rcases Expr.mentions_of_replaceKey hx with hnew | hx
    · rw [Local.reference, Expr.mentions_var, beq_iff_eq] at hnew
      exact Or.inr ⟨_, mem_locals_hoist.mpr (Or.inl rfl), hnew⟩
    · exact hold e' he' hx

include hlocal ho in
theorem used_hoist : ∀ l ∈ (s.hoist o).locals, ∃ e ∈ (s.hoist o).all, e.mentions l.name := by
  intro l hl
  rcases mem_locals_hoist.mp hl with rfl | ⟨l', hl', rfl⟩
  · obtain ⟨e, he, hfirst⟩ := ho.first_mem
    have hmem := Expr.nodes_subset_replaceKey hfirst ho.key_eq _
      (Expr.self_mem_nodes (s.hoisted o).reference)
    exact ⟨_, mem_all_hoist.mpr (Or.inr ⟨e, he, rfl⟩), Expr.mentions_iff.mpr ⟨_, hmem, rfl⟩⟩
  · obtain ⟨e, he, hx⟩ := h.used l' hl'
    rcases Expr.mentions_replaceKey hx with hstill | ⟨n, hn, hkey, hgone⟩
    · exact ⟨_, mem_all_hoist.mpr (Or.inr ⟨e, he, rfl⟩), hstill⟩
    · refine ⟨o.first, mem_all_hoist.mpr (Or.inl rfl), ?_⟩
      exact (h.first_mentions hlocal ho he hn hkey hl').trans hgone

include hlocal hes ho in
/-- A round keeps what holds. -/
theorem hoist : (s.hoist o).Sound names es where
  written := written_hoist ho h.written
  worded := by
    intro e he
    rcases mem_all_hoist.mp he with rfl | ⟨e', he', rfl⟩
    · exact h.first_worded ho
    · exact (h.worded e' he').replaceKey (Expr.isWorded_var (hlocal _) _)
  numbered := by
    intro l hl
    rw [length_locals_hoist]
    rcases mem_locals_hoist.mp hl with rfl | ⟨l', hl', rfl⟩
    · exact ⟨s.locals.length + 1, Nat.le_refl _, rfl⟩
    · obtain ⟨n, hn, hname⟩ := h.numbered l' hl'
      exact ⟨n, Nat.le_succ_of_le hn, hname⟩
  distinct := h.distinct_hoist hlocal hes ho
  ordered := h.ordered_hoist hlocal hes ho
  known := h.known_hoist ho
  used := h.used_hoist hlocal ho

end Sound

/-! ## All rounds -/

variable {ns : List Expr}

theorem mem_occurrences : o ∈ occurrences ns ↔ ∃ rest, ns.filter (·.key == o.key) = o.first :: rest ∧
    o.count = rest.length + 1 ∧ o.nullable = (o.first :: rest).any (·.type.nullable) := by
  have hgroup : ∀ k, ((ns.map fun e => (e.key, e)).filter fun p => p.1 == k) =
      (ns.filter (·.key == k)).map fun e => (e.key, e) := by
    intro k
    rw [List.filter_map]
    rfl
  constructor
  · intro h
    obtain ⟨⟨key, group⟩, hmem, hhead⟩ := List.mem_filterMap.mp h
    obtain ⟨⟨key', first⟩, hfirst, rfl⟩ := Option.map_eq_some_iff.mp hhead
    obtain ⟨-, rfl⟩ := mem_groupsBy.mp hmem
    dsimp only at hfirst ⊢
    rw [hgroup] at hfirst ⊢
    cases hplaces : ns.filter (·.key == key) with
    | nil => simp [hplaces] at hfirst
    | cons e rest =>
      obtain ⟨-, rfl⟩ : e.key = key' ∧ e = first := by simpa [hplaces] using hfirst
      exact ⟨rest, rfl, by simp, by simp [Function.comp_def]⟩
  · rintro ⟨rest, hplaces, hcount, hnullable⟩
    have hkey : o.first ∈ ns ∧ o.first.key = o.key := by
      have hmem : o.first ∈ ns.filter (·.key == o.key) := hplaces ▸ List.mem_cons_self
      simpa using hmem
    refine List.mem_filterMap.mpr ⟨(o.key, _), mem_groupsBy.mpr ⟨?_, rfl⟩, ?_⟩
    · exact ⟨(o.first.key, o.first), List.mem_map_of_mem hkey.1, hkey.2⟩
    · obtain ⟨key, first, count, nullable⟩ := o
      dsimp only at hplaces hcount hnullable
      simp [hgroup, hplaces, hcount, hnullable, Function.comp_def]

/-- The most frequent ones occur as often as any, and more than once. -/
theorem mem_mostFrequent {os : List Occurrences} :
    o ∈ mostFrequent os ↔ o ∈ os ∧ 1 < o.count ∧ ∀ o' ∈ os, o'.count ≤ o.count := by
  have htop : (1 :: os.map (·.count)).max? = some ((os.map (·.count)).foldl max 1) := List.max?_cons'
  obtain ⟨hmem, hle⟩ := List.max?_eq_some_iff.mp htop
  simp only [List.forall_mem_cons, List.forall_mem_map] at hle
  unfold mostFrequent
  generalize (os.map (·.count)).foldl max 1 = top at hmem hle
  dsimp only
  split
  · rename_i hone
    subst hone
    refine iff_of_false (by simp) ?_
    rintro ⟨ho, hlt, -⟩
    exact absurd (hle.2 o ho) (by omega)
  · rename_i hone
    obtain ⟨o', ho', htop⟩ : ∃ o' ∈ os, o'.count = top := by simpa [hone] using hmem
    rw [List.mem_filter, beq_iff_eq]
    refine and_congr_right fun ho => ⟨?_, ?_⟩
    · rintro rfl
      exact ⟨by omega, hle.2⟩
    · rintro ⟨-, hmax⟩
      exact Nat.le_antisymm (hle.2 o ho) (htop ▸ hmax o' ho')

theorem first_mem (h : o ∈ occurrences ns) : o.first ∈ ns ∧ o.first.key = o.key := by
  obtain ⟨rest, hplaces, -⟩ := mem_occurrences.mp h
  have hmem : o.first ∈ ns.filter (·.key == o.key) := hplaces ▸ List.mem_cons_self
  simpa using hmem

/-- What is shared next is there, under its key, and it occurs more than once. -/
theorem candidate?_spec (h : candidate? ns = some o) : o ∈ occurrences ns ∧ 1 < o.count := by
  have htied := List.mem_of_mem_filter (mem_sortBy.mp (List.mem_of_head? h))
  obtain ⟨hmem, hcount, -⟩ := mem_mostFrequent.mp htied
  exact ⟨hmem, hcount⟩

theorem occurs_of_candidate? (h : candidate? s.nodes = some o) : s.Occurs o := by
  obtain ⟨hmem, hkey⟩ := first_mem (candidate?_spec h).1
  obtain ⟨e, he, hfirst⟩ := List.mem_flatMap.mp (List.mem_of_mem_filter hmem)
  exact ⟨⟨e, he, hfirst⟩, hkey⟩

/-- What each round keeps holds in the end. -/
theorem hoistAll_induction {P : Sharing → Prop} (hstep : ∀ s o, P s → s.Occurs o → P (s.hoist o))
    (bound : Nat) (h : P s) : P (hoistAll bound s) := by
  induction bound generalizing s with
  | zero => exact h
  | succ bound ih =>
    unfold hoistAll
    split
    · exact h
    · rename_i o hcandidate
      exact ih (hstep s o h (occurs_of_candidate? hcandidate))

theorem sound_nil {names : NameKind} {es : List Expr} (hwritten : ∀ e ∈ es, e.Written)
    (hworded : ∀ e ∈ es, e.IsWorded names) : Sound names es ⟨[], es⟩ where
  written := by simpa [all] using hwritten
  worded := by simpa [all] using hworded
  numbered := by simp
  distinct := by simp
  ordered := ⟨by simp, by simp⟩
  known := by
    intro e he x hx
    exact Or.inl ⟨e, by simpa [all] using he, hx⟩
  used := by simp

theorem sound_ofExprs {names : NameKind} {es : List Expr} (hlocal : ∀ n, names.has (localName n))
    (hwritten : ∀ e ∈ es, e.Written) (hworded : ∀ e ∈ es, e.IsWorded names)
    (hes : ∀ e ∈ es, ∀ n, e.mentions (localName n) = false) : (ofExprs es).Sound names es :=
  hoistAll_induction (fun _ _ h ho => h.hoist hlocal hes ho) _ (sound_nil hwritten hworded)

end Sharing
end DataBinding
