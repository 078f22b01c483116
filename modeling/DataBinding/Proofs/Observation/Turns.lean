import DataBinding.Proofs.Observation.Nesting

/-!
# Turns of sources

Sources are linked one after the other, in descending order of their keys. A source is changed in its own
turn only, so one that comes later has nothing attached to it yet, and one that came before is as it will be
in the end. What is attached to a property is a greedy choice among the sources nested in it: one that is
attached rules out those that it reaches at that time.
-/
namespace DataBinding

/-- What no step of a fold changes stays as it is. -/
theorem foldl_keeps {σ α β : Type} {step : σ → α → σ} (view : σ → β) {as : List α}
    (h : ∀ s, ∀ a ∈ as, view (step s a) = view s) (s : σ) : view (as.foldl step s) = view s := by
  induction as generalizing s with
  | nil => rfl
  | cons a as ih =>
    obtain ⟨ha, has⟩ := List.forall_mem_cons.mp fun b hb s => h s b hb
    rw [List.foldl_cons, ih fun t b hb => has b hb t, ha]

namespace Source

variable {ss ts : List Source} {s g : Source} {p q : ObservedProperty} {i j a b : Nat}

/-! ## What linking leaves alone -/

theorem getElem?_linkNested_of_ne (h : a ≠ i) : (linkNested i j ss g)[a]? = ss[a]? := by
  simp [linkNested, h.symm]

theorem getElem?_linkProperty_of_ne (h : a ≠ i) : (linkProperty i ss j)[a]? = ss[a]? := by
  unfold linkProperty
  split
  · rfl
  · exact foldl_keeps (fun ts : List Source => ts[a]?) (fun _ _ _ => getElem?_linkNested_of_ne h) ss

theorem getElem?_linkSource_of_ne (h : a ≠ i) : (linkSource ss i)[a]? = ss[a]? := by
  unfold linkSource
  split
  · rfl
  · exact foldl_keeps (fun ts : List Source => ts[a]?) (fun _ _ _ => getElem?_linkProperty_of_ne h) ss

theorem getElem?_foldl_linkSource {is : List Nat} (h : a ∉ is) (ss : List Source) :
    (is.foldl linkSource ss)[a]? = ss[a]? :=
  foldl_keeps (fun ts : List Source => ts[a]?)
    (fun _ _ hi => getElem?_linkSource_of_ne fun h' => h (h' ▸ hi)) ss

theorem property?_linkProperty_of_ne (h : a ≠ j) : property? (linkProperty i ss j) i a = property? ss i a := by
  unfold linkProperty
  split
  · rfl
  · refine foldl_keeps (fun ts : List Source => property? ts i a) (fun ts g _ => ?_) ss
    rw [property?_linkNested, if_neg fun h' => h h'.2.symm]

theorem property?_foldl_linkProperty {js : List Nat} (h : a ∉ js) (ss : List Source) :
    property? (js.foldl (linkProperty i) ss) i a = property? ss i a :=
  foldl_keeps (fun ts : List Source => property? ts i a)
    (fun _ _ hj => property?_linkProperty_of_ne fun h' => h (h' ▸ hj)) ss

theorem linkSource_eq_self (h : ∀ j p, property? ss i j = some p → nested ss i p = []) :
    linkSource ss i = ss := by
  have hproperty : ∀ j, linkProperty i ss j = ss := by
    intro j
    unfold linkProperty
    split
    · rfl
    · rename_i p hp
      rw [h j p hp, List.foldl_nil]
  unfold linkSource
  split
  · rfl
  · induction List.range _ with
    | nil => rfl
    | cons j js ih => rw [List.foldl_cons, hproperty, ih]

/-! ## The order of turns -/

theorem Numbered.map_index (h : Numbered ss) : ss.map (·.index) = List.range ss.length := by
  apply List.ext_getElem?
  intro k
  rw [List.getElem?_map]
  cases hk : ss[k]? with
  | none =>
    rw [List.getElem?_eq_none_iff] at hk
    simp [hk]
  | some s =>
    have hlt := (List.getElem?_eq_some_iff.mp hk).1
    simp [h k s hk, hlt]

theorem nodup_linkOrder (h : Numbered ss) : (linkOrder ss).Nodup := by
  have hperm : (linkOrder ss).Perm (ss.map (·.index)) := by
    have := (sortBy_perm (fun a b => decide (b.2 ≤ a.2)) (ss.map fun s => (s.index, s.linkKey))).map (·.1)
    simpa [linkOrder, Function.comp_def] using this
  rw [hperm.nodup_iff, h.map_index]
  exact List.nodup_range

/-- A source has its turn before those with lesser keys. -/
theorem pairwise_linkOrder (h : Numbered ss) : (linkOrder ss).Pairwise fun a b =>
    ∀ s t : Source, ss[a]? = some s → ss[b]? = some t → t.linkKey ≤ s.linkKey := by
  have hsorted := pairwise_sortBy (fun a b : Nat × String => decide (b.2 ≤ a.2))
    (by simpa using fun a b => String.le_total b a)
    (by simpa using fun a b c hab hbc => String.le_trans hbc hab) (ss.map fun s => (s.index, s.linkKey))
  have hkey : ∀ x ∈ sortBy (fun a b : Nat × String => decide (b.2 ≤ a.2)) (ss.map fun s => (s.index, s.linkKey)),
      ∀ s, ss[x.1]? = some s → x.2 = s.linkKey := by
    intro x hx s hs
    obtain ⟨t, ht, rfl⟩ := List.mem_map.mp (mem_sortBy.mp hx)
    rw [Option.some.inj ((h.getElem?_index ht).symm.trans hs)]
  rw [linkOrder, List.pairwise_map]
  refine hsorted.imp_of_mem fun {x y} hx hy hxy s t hs ht => ?_
  rw [← hkey x hx s hs, ← hkey y hy t ht]
  simpa using hxy

def linkedBefore (sources : List Source) (i : Nat) : List Nat := (linkOrder sources).takeWhile (· != i)

/-- The sources as they are when the turn of a source comes. -/
def atTurn (sources : List Source) (i : Nat) : List Source :=
  (linkedBefore sources i).foldl linkSource sources

/-- The order of turns around that of a source, which has but one. -/
theorem linkOrder_split (hs : Numbered ss) (h : i ∈ linkOrder ss) :
    ∃ after, linkOrder ss = linkedBefore ss i ++ i :: after ∧ ∀ a ∈ linkedBefore ss i ++ [i], a ∉ after := by
  have hsplit : ∃ after, linkOrder ss = linkedBefore ss i ++ i :: after := by
    have hparts := List.takeWhile_append_dropWhile (p := (· != i)) (l := linkOrder ss)
    cases hrest : (linkOrder ss).dropWhile (· != i) with
    | nil => simpa using List.dropWhile_eq_nil_iff.mp hrest i h
    | cons k after =>
      have hk := List.head?_dropWhile_not (· != i) (linkOrder ss)
      rw [hrest] at hk hparts
      obtain rfl : k = i := by simpa using hk
      exact ⟨after, hparts.symm⟩
  obtain ⟨after, hafter⟩ := hsplit
  refine ⟨after, hafter, fun a ha ha' => ?_⟩
  have hnodup := nodup_linkOrder hs
  rw [hafter, List.append_cons] at hnodup
  exact (List.nodup_append.mp hnodup).2.2 a ha a ha' rfl

theorem not_mem_linkedBefore (ss : List Source) (i : Nat) : i ∉ linkedBefore ss i := by
  intro hi
  simpa using List.mem_takeWhile_imp hi

/-- Whether a source with another key has its turn first, the keys decide. -/
theorem mem_linkedBefore_iff (hs : Numbered ss) (hi : ss[i]? = some s) (ha : ss[a]? = some g)
    (hne : s.linkKey ≠ g.linkKey) : a ∈ linkedBefore ss i ↔ s.linkKey < g.linkKey := by
  obtain ⟨after, hafter, -⟩ := linkOrder_split hs (mem_linkOrder hs hi)
  have hpairs := pairwise_linkOrder hs
  rw [hafter] at hpairs
  obtain ⟨-, hrest, hfront⟩ := List.pairwise_append.mp hpairs
  constructor
  · intro hmem
    exact Std.lt_of_le_of_ne (hfront a hmem i List.mem_cons_self g s ha hi) hne
  · intro hlt
    have hmem : a ∈ linkedBefore ss i ++ i :: after := hafter ▸ mem_linkOrder hs ha
    rcases List.mem_append.mp hmem with hmem | hmem
    · exact hmem
    · rcases List.mem_cons.mp hmem with rfl | hmem
      · exact absurd (congrArg linkKey (Option.some.inj (hi.symm.trans ha))) hne
      · exact absurd hlt (String.not_lt.mpr ((List.pairwise_cons.mp hrest).1 a hmem s g hi ha))

/-! ## When the turn of a source comes -/

theorem getElem?_atTurn_of_not_mem (h : a ∉ linkedBefore ss i) : (atTurn ss i)[a]? = ss[a]? :=
  getElem?_foldl_linkSource h ss

/-- A source that has had its turn is as it will be in the end. -/
theorem getElem?_atTurn_of_mem (hs : Numbered ss) (hi : i ∈ linkOrder ss) (h : a ∈ linkedBefore ss i) :
    (atTurn ss i)[a]? = (link ss)[a]? := by
  obtain ⟨after, hafter, hnot⟩ := linkOrder_split hs hi
  have ha : a ∉ i :: after := by
    intro hmem
    rcases List.mem_cons.mp hmem with rfl | hmem
    · exact not_mem_linkedBefore ss a h
    · exact hnot a (List.mem_append_left [i] h) hmem
  rw [link, hafter, List.foldl_append]
  exact (getElem?_foldl_linkSource ha _).symm

theorem atTurn_spec (h : PartlyLinked ss) (i : Nat) :
    PartlyLinked (atTurn ss i) ∧ AllGrow ss (atTurn ss i) := by
  obtain ⟨hlinked, hgrow, -⟩ := foldl_linkSource_spec h (linkedBefore ss i)
  exact ⟨hlinked, hgrow⟩

theorem atTurn_grows_link (h : PartlyLinked ss) (hi : i ∈ linkOrder ss) : AllGrow (atTurn ss i) (link ss) := by
  obtain ⟨after, hafter, -⟩ := linkOrder_split h.numbered hi
  rw [link, hafter, List.foldl_append]
  exact (foldl_linkSource_spec (atTurn_spec h i).1 (i :: after)).2.1

theorem getElem?_link (hs : Numbered ss) (hi : i ∈ linkOrder ss) :
    (link ss)[i]? = (linkSource (atTurn ss i) i)[i]? := by
  obtain ⟨after, hafter, hnot⟩ := linkOrder_split hs hi
  rw [link, hafter, List.foldl_append, List.foldl_cons]
  exact getElem?_foldl_linkSource (hnot i (by simp)) _

/-! ## Greedy attachment -/

theorem mem_tree_singleton {d x : Nat} : x ∈ tree ss [d] ↔ Relation.ReflTransGen (graph ss).Edge d x := by
  simp [mem_tree_iff]

/-- The properties of a source do not count for the trees that do not reach it. -/
theorem mem_tree_congr (hss : Numbered ss) (hts : Numbered ts) (h : ∀ a, a ≠ i → ts[a]? = ss[a]?) {d x : Nat}
    (hi : i ∉ tree ss [d]) : x ∈ tree ts [d] ↔ x ∈ tree ss [d] := by
  have hedge : ∀ a ∈ tree ss [d], ∀ b, (graph ts).Edge a b ↔ (graph ss).Edge a b := by
    intro a ha b
    have hai : a ≠ i := fun h' => hi (h' ▸ ha)
    simp only [edge_graph_iff hss, edge_graph_iff hts, property?, h a hai]
  constructor
  · intro hx
    replace hx := mem_tree_singleton.mp hx
    induction hx with
    | refl => exact mem_tree_singleton.mpr .refl
    | tail _ hab ih => exact mem_tree_singleton.mpr (.tail (mem_tree_singleton.mp ih) ((hedge _ ih _).mp hab))
  · intro hx
    replace hx := mem_tree_singleton.mp hx
    induction hx with
    | refl => exact mem_tree_singleton.mpr .refl
    | tail hpath hab ih =>
      have hmem := mem_tree_singleton.mpr hpath
      exact mem_tree_singleton.mpr (.tail (mem_tree_singleton.mp ih) ((hedge _ hmem _).mpr hab))

/-- Is the second source replaced along with the first one? -/
def reaches (sources : List Source) (d x : Nat) : Bool := (tree sources [d]).contains x

theorem reaches_iff {d x : Nat} : reaches ss d x = true ↔ x ∈ tree ss [d] := by
  simp [reaches]

/-- While the sources nested in a property are attached, the trees of those attached stay as they were. -/
theorem foldl_linkNested_dependents (hss : Numbered ss) (hts : Numbered ts)
    (hother : ∀ a, a ≠ i → ts[a]? = ss[a]?) (hp : property? ts i j = some p) {gs : List Source}
    (hgs : ∀ g ∈ gs, i ∉ tree ss [g.index]) (hdependents : ∀ d ∈ p.dependents, i ∉ tree ss [d]) :
    ∃ q, property? (gs.foldl (linkNested i j) ts) i j = some q ∧
      q.dependents = (gs.map (·.index)).foldl (takeUnlessRuledOut (reaches ss)) p.dependents := by
  induction gs generalizing ts p with
  | nil => exact ⟨p, hp, rfl⟩
  | cons g gs ih =>
    obtain ⟨hg, hgs⟩ := List.forall_mem_cons.mp hgs
    have hattach : property? (linkNested i j ts g) i j = some (attach ts p g) := by
      rw [property?_linkNested, if_pos ⟨rfl, rfl⟩, hp, Option.map_some]
    have htree : (tree ts p.dependents).contains g.index = p.dependents.any (reaches ss · g.index) := by
      rw [Bool.eq_iff_iff, List.contains_iff_mem, List.any_eq_true, mem_tree_iff]
      refine exists_congr fun d => and_congr_right fun hd => ?_
      rw [reaches_iff, ← mem_tree_congr hss hts hother (hdependents d hd), mem_tree_singleton]
    have hnext : (attach ts p g).dependents = takeUnlessRuledOut (reaches ss) p.dependents g.index := by
      simp only [attach, takeUnlessRuledOut, htree]
    rw [List.foldl_cons, List.map_cons, List.foldl_cons, ← hnext]
    refine ih ((linkNested_grows i j ts g).numbered hts) ?_ hattach hgs ?_
    · intro a ha
      rw [getElem?_linkNested_of_ne ha, hother a ha]
    · intro d hd
      rw [hnext, takeUnlessRuledOut] at hd
      split at hd
      · exact hdependents d hd
      · rcases List.mem_append.mp hd with hd | hd
        · exact hdependents d hd
        · obtain rfl := List.mem_singleton.mp hd
          exact hg

/-- When the turn of a source has come, nothing has been attached to a property until the property is linked. -/
theorem exists_before_property (h : Unlinked ss) (hi : ss[i]? = some s) (hp : property? (link ss) i j = some p) :
    ∃ ts p₀, property? (linkProperty i ts j) i j = some p ∧ property? ts i j = some p₀ ∧
      property? ss i j = some p₀ ∧ PartlyLinked ts ∧ AllGrow ss ts ∧
        ∀ a, a ≠ i → ts[a]? = (atTurn ss i)[a]? := by
  obtain ⟨hlinked, hgrow⟩ := atTurn_spec h.partlyLinked i
  have hturn : (atTurn ss i)[i]? = some s :=
    (getElem?_atTurn_of_not_mem (not_mem_linkedBefore ss i)).trans hi
  have hown : linkSource (atTurn ss i) i =
      (List.range s.properties.length).foldl (linkProperty i) (atTurn ss i) := by
    rw [linkSource, hturn]
  have hfinal : property? (linkSource (atTurn ss i) i) i j = some p := by
    rw [property?, ← getElem?_link h.numbered (mem_linkOrder h.numbered hi)]
    exact hp
  obtain ⟨p₀, hp₀, -⟩ := (linkSource_spec i hlinked).2.1.property?_right hfinal
  have hj : j ∈ List.range s.properties.length := by
    rw [property?, hturn] at hp₀
    exact List.mem_range.mpr (List.getElem?_eq_some_iff.mp hp₀).1
  obtain ⟨front, back, hrange⟩ := List.append_of_mem hj
  have hnodup : (front ++ j :: back).Nodup := hrange ▸ List.nodup_range
  obtain ⟨hback, hfront⟩ : j ∉ back ∧ j ∉ front := by
    rw [List.nodup_middle, List.nodup_cons, List.mem_append, not_or] at hnodup
    exact ⟨hnodup.1.2, hnodup.1.1⟩
  have hstate : PartlyLinked (front.foldl (linkProperty i) (atTurn ss i)) ∧
      AllGrow ss (front.foldl (linkProperty i) (atTurn ss i)) := by
    refine List.foldlRecOn (motive := fun ts => PartlyLinked ts ∧ AllGrow ss ts) front _ ⟨hlinked, hgrow⟩
      fun ts hts k _ => ?_
    obtain ⟨hnext, hgrows, -⟩ := linkProperty_spec i k hts.1
    exact ⟨hnext, hts.2.trans hgrows⟩
  refine ⟨front.foldl (linkProperty i) (atTurn ss i), p₀, ?_, ?_, ?_, hstate.1, hstate.2, ?_⟩
  · rw [hown, hrange, List.foldl_append, List.foldl_cons, property?_foldl_linkProperty hback] at hfinal
    exact hfinal
  · rw [property?_foldl_linkProperty hfront]
    exact hp₀
  · rw [property?, hi, ← hturn]
    exact hp₀
  · intro a ha
    exact foldl_keeps (fun ts : List Source => ts[a]?) (fun _ _ _ => getElem?_linkProperty_of_ne ha) _

/-- Sources that nothing has been attached to, and whose nesting never leads back. -/
structure Grounded (sources : List Source) : Prop extends Unlinked sources where
  acyclic : ∀ a b, Nests sources a b → ¬ Relation.ReflTransGen (Nests sources) b a

/-- The dependents of a property are taken greedily from the sources nested in it, in the order of their
numbers. One rules out those that it reaches when the turn of the property's source has come. -/
theorem dependents_link (h : Grounded ss) (hp : property? (link ss) i j = some p) :
    p.dependents = greedy (reaches (atTurn ss i)) ((nested (link ss) i p).map (·.index)) := by
  have hgrow := (link_grows_linked h.toUnlinked).1
  obtain ⟨p₀, hp₀, hgrows⟩ := hgrow.property?_right hp
  obtain ⟨s, hi, -⟩ := property?_eq_some_iff.mp hp₀
  obtain ⟨hturn, hturnGrow⟩ := atTurn_spec h.partlyLinked i
  obtain ⟨ts, p₁, hfinal, hp₁, hsame, hts, htsGrow, hother⟩ := exists_before_property h.toUnlinked hi hp
  obtain rfl : p₀ = p₁ := Option.some.inj (hp₀.symm.trans hsame)
  have hnested : ∀ g ∈ nested ts i p₀, i ∉ tree (atTurn ss i) [g.index] := by
    intro g hg hreach
    have hnests : Nests ss i g.index := htsGrow.nests_iff.mp ⟨j, p₀, hp₁, g, hg, rfl⟩
    apply h.acyclic i g.index hnests
    exact Relation.ReflTransGen.mono (fun a b hab => hturnGrow.nests_iff.mp (hturn.nests_of_edge hab)) _ _
      (mem_tree_singleton.mp hreach)
  have hempty : p₀.dependents = [] := h.dependents i j p₀ hp₀
  obtain ⟨q, hq, hdependents⟩ := foldl_linkNested_dependents hturn.numbered hts.numbered hother hp₁ hnested
    (by simp [hempty])
  rw [← linkProperty_eq hp₁, hfinal] at hq
  obtain rfl : p = q := Option.some.inj hq
  have hindices : (nested ts i p₀).map (·.index) = (nested (link ss) i p).map (·.index) := by
    rw [(hgrow.nested i hgrows).map_index, (htsGrow.nested i (.refl p₀)).map_index]
  rw [hdependents, hindices, hempty]
  rfl

end Source
end DataBinding
