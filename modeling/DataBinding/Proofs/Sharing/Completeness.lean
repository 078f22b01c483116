import DataBinding.Proofs.Sharing.Inlining

/-!
# Everything is shared

Of the keys that occur most often the shortest one contains none of the others, so there is always
something to share as long as a key occurs twice. Each new variable takes all places of its key away and
keeps one of them as its value, so the number of nodes that are worth a variable falls and the last round
is reached. What it leaves has nothing more to share.
-/
namespace DataBinding.Sharing

variable {s : Sharing} {o : Occurrences} {ns : List Expr} {k : String} {v e : Expr}

/-! ## What is left to share -/

/-- Something among the most frequent contains none of the others: that with the shortest key. -/
theorem exists_innermost {tied : List Occurrences} (htied : tied ≠ [])
    (hwritten : ∀ o ∈ tied, o.first.Written ∧ o.first.key = o.key) :
    ∃ o ∈ tied, isInnermost tied o := by
  obtain ⟨o, hleast⟩ : ∃ o, o ∈ tied.argmin (·.key.length) :=
    Option.ne_none_iff_exists'.mp (mt List.argmin_eq_none.mp htied)
  have ho : o ∈ tied := List.argmin_mem hleast
  refine ⟨o, ho, List.all_eq_true.mpr fun inner hinner => ?_⟩
  by_cases hcontains : o.first.containsKey inner.key
  · obtain ⟨n, hn, hkey⟩ := Expr.containsKey_iff.mp hcontains
    obtain ⟨hfirst, hfirstKey⟩ := hwritten o ho
    rcases Expr.mem_nodes.mp hn with rfl | ⟨part, hpart, hn⟩
    · simp [← hkey, hfirstKey]
    · have hshorter := hfirst.length_key_lt hpart hn
      have hle := List.le_of_mem_argmin hinner hleast
      rw [hkey, hfirstKey] at hshorter
      omega
  · simp [hcontains]

theorem mostFrequent_eq_nil_iff {os : List Occurrences} :
    mostFrequent os = [] ↔ ∀ o ∈ os, o.count ≤ 1 := by
  rw [List.eq_nil_iff_forall_not_mem]
  constructor
  · intro hnone o ho
    by_contra hlt
    obtain ⟨top, htop⟩ : ∃ top, top ∈ os.argmax (·.count) :=
      Option.ne_none_iff_exists'.mp (mt List.argmax_eq_none.mp (List.ne_nil_of_mem ho))
    have hle : ∀ o' ∈ os, o'.count ≤ top.count := fun o' ho' => List.le_of_mem_argmax ho' htop
    have := hle o ho
    exact hnone top (mem_mostFrequent.mpr ⟨List.argmax_mem htop, by omega, hle⟩)
  · intro hle o ho
    obtain ⟨hmem, hlt, -⟩ := mem_mostFrequent.mp ho
    exact absurd (hle o hmem) (by omega)

theorem candidate?_eq_none_iff_mostFrequent (hwritten : ∀ n ∈ ns, n.Written) :
    candidate? ns = none ↔ mostFrequent (occurrences ns) = [] := by
  rw [candidate?, List.head?_eq_none_iff, List.eq_nil_iff_forall_not_mem]
  simp only [mem_sortBy]
  constructor
  · intro hnone
    by_contra htied
    have hfirst : ∀ o ∈ mostFrequent (occurrences ns), o.first.Written ∧ o.first.key = o.key := by
      intro o ho
      obtain ⟨hmem, hkey⟩ := first_mem (mem_mostFrequent.mp ho).1
      exact ⟨hwritten _ hmem, hkey⟩
    obtain ⟨o, ho, hinnermost⟩ := exists_innermost htied hfirst
    exact hnone o (List.mem_filter.mpr ⟨ho, hinnermost⟩)
  · intro hnil o ho
    rw [hnil] at ho
    cases ho

/-- There is nothing to share if and only if no key occurs twice. -/
theorem candidate?_eq_none_iff (hwritten : ∀ n ∈ ns, n.Written) :
    candidate? ns = none ↔ (ns.map Expr.key).Nodup := by
  have hcount : ∀ k, (ns.map Expr.key).count k = (ns.filter (·.key == k)).length := by
    intro k
    rw [List.count, List.countP_map, List.countP_eq_length_filter]
    rfl
  rw [candidate?_eq_none_iff_mostFrequent hwritten, mostFrequent_eq_nil_iff, List.nodup_iff_count_le_one]
  constructor
  · intro hle k
    rw [hcount]
    cases hplaces : ns.filter (·.key == k) with
    | nil => exact Nat.zero_le 1
    | cons first rest =>
      let o : Occurrences := ⟨k, first, rest.length + 1, (first :: rest).any (·.type.nullable)⟩
      exact hle o (mem_occurrences.mpr ⟨rest, hplaces, rfl, rfl⟩)
  · intro hle o ho
    obtain ⟨rest, hplaces, hlength, -⟩ := mem_occurrences.mp ho
    have := hle o.key
    rw [hcount, hplaces] at this
    rw [hlength]
    exact this

/-! ## Every round takes nodes away -/

/-- Number of nodes that are always evaluated and worth a variable. -/
def weight (e : Expr) : Nat := e.eagerNodes.countP (!·.isTrivial)

theorem weight_eq (e : Expr) : weight e = (if e.isTrivial then 0 else 1) +
    ((e.operands.take (e.form.eagerCount e.operands.length)).map weight).sum := by
  obtain ⟨form, type, operands⟩ := e
  rw [weight, Expr.eagerNodes, Expr.eagerNodesOf_eq_flatMap, List.countP_cons, List.countP_flatMap, Nat.add_comm]
  cases Expr.isTrivial ⟨form, type, operands⟩ <;> rfl

theorem length_nodes (s : Sharing) : s.nodes.length = (s.all.map weight).sum := by
  rw [nodes, ← List.countP_eq_length_filter, List.countP_flatMap]
  rfl

/-- The weight of the places in which a key stands, where none stands in another. -/
def weightOf (k : String) (es : List Expr) : Nat :=
  (((es.flatMap Expr.eagerNodes).filter (·.key == k)).map weight).sum

theorem sum_weight_replaceKey {es : List Expr}
    (h : ∀ e ∈ es, weight (Expr.replaceKey k v e) + weightOf k [e] = weight e) :
    ((es.map (Expr.replaceKey k v)).map weight).sum + weightOf k es = (es.map weight).sum := by
  induction es with
  | nil => rfl
  | cons e es ih =>
    obtain ⟨he, hes⟩ := List.forall_mem_cons.mp h
    have hsum := ih hes
    have hsplit : weightOf k (e :: es) = weightOf k [e] + weightOf k es := by
      simp [weightOf]
    simp only [List.map_cons, List.sum_cons, hsplit]
    omega

theorem weightOf_node (k : String) (e : Expr) : weightOf k [e] =
    (if e.key = k then weight e else 0) +
      weightOf k (e.operands.take (e.form.eagerCount e.operands.length)) := by
  obtain ⟨form, type, operands⟩ := e
  simp only [weightOf, List.flatMap_cons, List.flatMap_nil, List.append_nil, Expr.eagerNodes,
    Expr.eagerNodesOf_eq_flatMap, List.filter_cons, beq_iff_eq]
  split <;> simp

/-- No key stands in an operand of what has it, since everything there is written shorter. -/
theorem weightOf_operands (he : e.Written) (count : Nat) : weightOf e.key (e.operands.take count) = 0 := by
  have hnone : ((e.operands.take count).flatMap Expr.eagerNodes).filter (·.key == e.key) = [] := by
    refine List.filter_eq_nil_iff.mpr fun n hn heq => ?_
    obtain ⟨o, ho, hno⟩ := List.mem_flatMap.mp hn
    have hshorter := he.length_key_lt (List.mem_of_mem_take ho) (Expr.isWalk_eagerNodes.mem_nodes hno)
    rw [beq_iff_eq.mp heq] at hshorter
    exact absurd hshorter (Nat.lt_irrefl _)
  rw [weightOf, hnone]
  rfl

/-- A variable takes away the weight of the places in which it stands. -/
theorem weight_replaceKey (he : e.Written) (hv : weight v = 0) :
    weight (Expr.replaceKey k v e) + weightOf k [e] = weight e := by
  induction he with
  | @node form type operands fits operands_written ih =>
    by_cases hkey : Expr.key ⟨form, type, operands⟩ = k
    · subst hkey
      rw [Expr.replaceKey_of_key_eq rfl, hv, weightOf_node, if_pos rfl,
        weightOf_operands (.node fits operands_written), Nat.zero_add, Nat.add_zero]
    · have hoperands : ∀ o ∈ operands.take (form.eagerCount operands.length),
          weight (Expr.replaceKey k v o) + weightOf k [o] = weight o :=
        fun o ho => ih o (List.mem_of_mem_take ho)
      have hsum := sum_weight_replaceKey hoperands
      have htrivial : Expr.isTrivial ⟨form, type, operands.map (Expr.replaceKey k v)⟩ =
          Expr.isTrivial ⟨form, type, operands⟩ := rfl
      rw [Expr.replaceKey_of_key_ne hkey, weightOf_node, if_neg hkey, weight_eq, htrivial,
        weight_eq ⟨form, type, operands⟩]
      simp only [List.length_map, ← List.map_take]
      omega

theorem all_hoist_perm (s : Sharing) (o : Occurrences) :
    (s.hoist o).all.Perm (o.first :: s.all.map (Expr.replaceKey o.key (s.hoisted o).reference)) := by
  have hvalues := (declare_perm (s.hoisted o) (s.locals.map (rewritten o.key (s.hoisted o)))).map (·.value)
  have hrewritten : (s.locals.map (rewritten o.key (s.hoisted o))).map (·.value) =
      (s.locals.map (·.value)).map (Expr.replaceKey o.key (s.hoisted o).reference) := by
    simp [rewritten]
  rw [List.map_cons, hrewritten] at hvalues
  rw [all, hoist_exprs, hoist_locals, all, List.map_append]
  exact (hvalues.append_left _).trans List.perm_middle

/-- The new variable stands in two places at least, and its value is there once. -/
theorem weight_lt_weightOf (h : candidate? s.nodes = some o) : weight o.first < weightOf o.key s.all := by
  obtain ⟨hmem, hcount⟩ := candidate?_spec h
  obtain ⟨rest, hplaces, hlength, -⟩ := mem_occurrences.mp hmem
  obtain ⟨next, rest, rfl⟩ : ∃ next others, rest = next :: others :=
    List.exists_cons_of_length_pos (by omega)
  have hnext : 0 < weight next := by
    have hmem : next ∈ s.nodes.filter (·.key == o.key) := by simp [hplaces]
    have hworth := (List.mem_filter.mp (List.mem_of_mem_filter hmem)).2
    exact List.countP_pos_iff.mpr ⟨next, Expr.isWalk_eagerNodes.self_mem next, hworth⟩
  have hplacesAmong : (s.nodes.filter (·.key == o.key)).Sublist
      ((s.all.flatMap Expr.eagerNodes).filter (·.key == o.key)) :=
    List.Sublist.filter _ List.filter_sublist
  have hsum : ((o.first :: next :: rest).map weight).sum ≤ weightOf o.key s.all :=
    hplaces ▸ (hplacesAmong.map weight).sum_le_sum (by simp)
  simp only [List.map_cons, List.sum_cons] at hsum
  omega

theorem length_nodes_hoist (hwritten : ∀ e ∈ s.all, e.Written) (h : candidate? s.nodes = some o) :
    (s.hoist o).nodes.length < s.nodes.length := by
  have hsum := sum_weight_replaceKey (k := o.key) (v := (s.hoisted o).reference) fun e he =>
    weight_replaceKey (hwritten e he) rfl
  have hlt := weight_lt_weightOf h
  rw [length_nodes, length_nodes, ((all_hoist_perm s o).map weight).sum_eq, List.map_cons, List.sum_cons]
  omega

/-- As many rounds as there are nodes leave nothing to share. -/
theorem candidate?_hoistAll {bound : Nat} (hwritten : ∀ e ∈ s.all, e.Written) (hbound : s.nodes.length ≤ bound) :
    candidate? (hoistAll bound s).nodes = none := by
  induction bound generalizing s with
  | zero =>
    have hnil : s.nodes = [] := List.length_eq_zero_iff.mp (Nat.le_zero.mp hbound)
    rw [hoistAll, hnil]
    rfl
  | succ bound ih =>
    unfold hoistAll
    split
    · assumption
    · rename_i o hcandidate
      have hlt := length_nodes_hoist hwritten hcandidate
      exact ih (written_hoist (occurs_of_candidate? hcandidate) hwritten) (by omega)

/-! ## All rounds -/

theorem nodes_written (h : ∀ e ∈ s.all, e.Written) : ∀ n ∈ s.nodes, n.Written := by
  intro n hn
  obtain ⟨e, he, hne⟩ := List.mem_flatMap.mp (List.mem_of_mem_filter hn)
  exact (h e he).of_mem_nodes (Expr.isWalk_eagerNodes.mem_nodes hne)

theorem hoistAll_of_candidate?_eq_none (h : candidate? s.nodes = none) (bound : Nat) : hoistAll bound s = s := by
  cases bound with
  | zero => rfl
  | succ bound => rw [hoistAll, h]

theorem nodes_exprs_sublist (s : Sharing) : (⟨[], s.exprs⟩ : Sharing).nodes.Sublist s.nodes := by
  simp only [nodes, List.map_nil, List.append_nil, List.flatMap_append, List.filter_append]
  exact List.sublist_append_left _ _

/-- Once everything is shared, no two nodes that are always evaluated and worth a variable have the same
key, and to share once more changes nothing. -/
theorem ofExprs_shared {es : List Expr} (hbuilt : ∀ e ∈ es, e.Built) :
    ((ofExprs es).nodes.map Expr.key).Nodup ∧ ofExprs (ofExprs es).exprs = ⟨[], (ofExprs es).exprs⟩ := by
  have hwritten : ∀ e ∈ (⟨[], es⟩ : Sharing).all, e.Written := by
    intro e he
    exact (hbuilt e (by simpa [all] using he)).written
  have hshared : ∀ e ∈ (ofExprs es).all, e.Written :=
    hoistAll_induction (fun _ _ h ho => written_hoist ho h) _ hwritten
  have hnodup : ((ofExprs es).nodes.map Expr.key).Nodup :=
    (candidate?_eq_none_iff (nodes_written hshared)).mp (candidate?_hoistAll hwritten (Nat.le_refl _))
  refine ⟨hnodup, hoistAll_of_candidate?_eq_none ?_ _⟩
  have hexprs : ∀ e ∈ (⟨[], (ofExprs es).exprs⟩ : Sharing).all, e.Written := by
    intro e he
    exact hshared e (expr_mem_all (by simpa [all] using he))
  refine (candidate?_eq_none_iff (nodes_written hexprs)).mpr ?_
  exact hnodup.sublist ((nodes_exprs_sublist _).map Expr.key)

/-- Five variables are needed until nothing occurs twice. -/
theorem nested_sides_shared :
    let s := ofExprs (ItemPage.exprs ["Top.Side.P + Low.Side.P", "Top.Side.Q", "Top.F(Low.Side.P).Q"])
    s.nodes.map Expr.key = [
      "(value3.P + value5)", "value3.P", "value3.Q", "value1.F(value5).Q", "value1.F(value5)", "dataRoot.Top",
      "dataRoot.Low", "value1.Side", "value2.Side", "value4.P"] ∧
      (s.nodes.map Expr.key).Nodup ∧ ofExprs s.exprs = ⟨[], s.exprs⟩ :=
  ⟨by decide +kernel, ofExprs_shared (ItemPage.exprs_built _)⟩

end DataBinding.Sharing
