import DataBinding.Proofs.Binding.Segments
import DataBinding.Proofs.Membership
import Mathlib.Data.List.Nodup

/-!
# The order of named arguments

A declaration whose segments all have names means the same binding in every order of its segments. What
can differ is the order of its resources and namespaces, and where its faults are.
-/
namespace DataBinding
open Text NamedValue

/-! ## The data type -/

namespace Segment

theorem infix_append_cons {w cs ds : List Char} {c : Char} (hc : c ∉ w) (h : w <:+: cs ++ c :: ds) :
    w <:+: cs ∨ w <:+: ds := by
  induction cs with
  | nil =>
    rcases List.infix_cons_iff.mp h with hprefix | hinfix
    · obtain ⟨rest, hrest⟩ := hprefix
      cases w with
      | nil => exact Or.inl (List.nil_infix)
      | cons d w =>
        cases hrest
        simp at hc
    · exact Or.inr hinfix
  | cons d cs ih =>
    rcases List.infix_cons_iff.mp h with hprefix | hinfix
    · have hboth : d :: cs ++ [c] <+: d :: (cs ++ c :: ds) := ⟨ds, by simp⟩
      rcases List.prefix_or_prefix_of_prefix hprefix hboth with hw | hw
      · rcases List.prefix_concat_iff.mp hw with rfl | hw
        · simp at hc
        · exact Or.inl hw.isInfix
      · exact absurd (hw.subset (by simp)) hc
    · rcases ih hinfix with hcs | hds
      · exact Or.inl (List.infix_cons hcs)
      · exact Or.inr hds

theorem lastDataType?_eq_none {cs : List Char} (h : ¬ "DataType".toList <:+: cs) : lastDataType? cs = none := by
  induction cs with
  | nil => rfl
  | cons c cs ih =>
    have hfirst : after? "DataType".toList (c :: cs) = none := by
      cases hafter : after? "DataType".toList (c :: cs) with
      | none => rfl
      | some rest => exact absurd (Text.after?_eq_some hafter ▸ (List.prefix_append _ rest).isInfix) h
    rw [lastDataType?, ih fun hcs => h (List.infix_cons hcs), hfirst]
    rfl

theorem lastDataType?_append {cs tail : List Char} (h : lastDataType? cs = some tail) (front : List Char) :
    lastDataType? (front ++ cs) = some tail := by
  induction front with
  | nil => exact h
  | cons c front ih => simp [lastDataType?, ih]

theorem lastDataType?_mention {tail : List Char} (hfree : ¬ "DataType".toList <:+: tail)
    (hequals : tail.head? ≠ some '=') :
    lastDataType? ("DataType".toList ++ '=' :: tail) = some tail := by
  have hmark : '=' ∉ "DataType".toList := by decide
  have hshort : ¬ "DataType".toList <:+: "ataType".toList := fun h => absurd h.length_le (by decide)
  have hrest : ¬ "DataType".toList <:+: "ataType".toList ++ '=' :: tail :=
    fun h => (infix_append_cons hmark h).elim hshort hfree
  have hafter : after? "DataType".toList ("DataType".toList ++ '=' :: tail) = some ('=' :: tail) :=
    after?_append _ _
  have htrim : trimStart ('=' :: tail) = ['='] ++ tail := Sharp.trimStart (by intro c hc; cases hc; decide)
  have hcons : "DataType".toList ++ '=' :: tail = 'D' :: ("ataType".toList ++ '=' :: tail) := rfl
  rw [hcons, lastDataType?, ← hcons, lastDataType?_eq_none hrest, hafter]
  simp only [Option.bind_eq_bind, Option.bind_some, htrim, after?_append, if_neg hequals]
  rfl

end Segment

namespace NamedValue

variable {parses : String → Prop} {a : NamedValue} {l : List NamedValue}

theorem Admissible.mono {parses' : String → Prop} (h : ∀ value, parses value → parses' value)
    (ha : a.Admissible parses) : a.Admissible parses' := by
  cases ha with
  | expression role value hvalue => exact .expression role value (h value hvalue)
  | resource role value name hrole hne hname htext => exact .resource role value name hrole hne hname htext
  | format value text hquote htext => exact .format value text hquote htext
  | plain name value hname hblank hcomma hequals => exact .plain name value hname hblank hcomma hequals

/-- No recognised name but one mentions the data type. -/
theorem Admissible.name_free (ha : a.Admissible parses) (hname : a.name ≠ "DataType") :
    ¬ "DataType".toList <:+: a.name.toList := by
  have hall : names.all fun name => name == "DataType" || !decide ("DataType".toList <:+: name.toList) := by
    decide +kernel
  have hfree := List.all_eq_true.mp hall a.name ha.name_mem
  simp only [Bool.or_eq_true, beq_iff_eq, hname, false_or, Bool.not_eq_true', decide_eq_false_iff_not] at hfree
  exact hfree

/-- A declaration without a data type does not mention one behind the value of a segment. -/
theorem following_free (hl : ∀ a ∈ l, a.Admissible parses) (hnames : ∀ a ∈ l, a.name ≠ "DataType")
    (hfree : ∀ a ∈ l, ¬ "DataType".toList <:+: a.value.toList) {value : List Char}
    (hvalue : ¬ "DataType".toList <:+: value) : ¬ "DataType".toList <:+: value ++ following l := by
  induction l generalizing value with
  | nil => simpa [following] using hvalue
  | cons a l ih =>
    have hcomma : ',' ∉ "DataType".toList := by decide
    have hblank : ' ' ∉ "DataType".toList := by decide
    have hmark : '=' ∉ "DataType".toList := by decide
    simp only [List.forall_mem_cons] at hl hnames hfree
    intro h
    rcases Segment.infix_append_cons hcomma h with h | h
    · exact hvalue h
    change "DataType".toList <:+: [] ++ ' ' :: (join (a :: l)).toList at h
    rcases Segment.infix_append_cons hblank h with h | h
    · exact absurd h.length_le (by decide)
    rw [toList_join_cons] at h
    rcases Segment.infix_append_cons hmark h with h | h
    · exact hl.1.name_free hnames.1 h
    · exact ih hl.2 hnames.2 hfree.2 hfree.1 h

theorem Admissible.of_dataType (ha : a.Admissible parses) (hname : a.name = "DataType") :
    a.core ≠ [] ∧ ',' ∉ a.core ∧ a.value.toList.head? ≠ some '=' := by
  have hrole (role : Role) : role.name ≠ "DataType" := by cases role <;> decide
  cases ha with
  | expression role value h => exact absurd hname (hrole role)
  | resource role value name hadmits hne hletters h => exact absurd hname (hrole role)
  | format value text hquote h => exact absurd (show "StringFormat" = "DataType" from hname) (by decide)
  | plain name value hmem hblank hcomma hequals =>
    exact ⟨hblank, fun h => hcomma ((trim_subset _) h), hequals⟩

/-- The text behind the last mention of the data type starts with the value of its segment. -/
theorem exists_lastDataType?_join (hl : ∀ a ∈ l, a.Admissible parses) (hnames : (l.map (·.name)).Nodup)
    (hfree : ∀ a ∈ l, ¬ "DataType".toList <:+: a.value.toList) (ha : a ∈ l) (hname : a.name = "DataType") :
    ∃ tail, Segment.lastDataType? (trimEnd (join l).toList) = some tail ∧
      (Segment.plainValue ⟨0, tail⟩).1 = trimEnd a.core := by
  induction l with
  | nil => cases ha
  | cons b l ih =>
    rw [List.map_cons, List.nodup_cons] at hnames
    simp only [List.forall_mem_cons] at hl hfree
    rcases List.mem_cons.mp ha with rfl | ha
    · obtain ⟨hcore, hcomma, hequals⟩ := hl.1.of_dataType hname
      obtain ⟨front, back, htail, hfront, hback, hhead⟩ := exists_trimEnd_join_eq hcore hequals l
      refine ⟨trimEnd (a.value.toList ++ following l), ?_, ?_⟩
      · have hothers : ∀ b ∈ l, b.name ≠ "DataType" := fun b hb h =>
          hnames.1 (hname.trans h.symm ▸ List.mem_map_of_mem hb)
        have hprefix : trimEnd (a.value.toList ++ following l) <+: a.value.toList ++ following l :=
          List.rdropWhile_prefix _ _
        rw [trimEnd_join_cons, hname]
        apply Segment.lastDataType?_mention
        · exact fun h => following_free hl.2 hothers hfree.2 hfree.1 (h.trans hprefix.isInfix)
        · rw [htail, ← List.append_assoc, List.head?_append_of_ne_nil _ (by simpa using fun _ => hcore)]
          exact hhead
      · exact (Segment.plainValue_append htail hfront hcore (sharp_trim _) hcomma hback
          (separates_following l)).1
    · obtain ⟨tail, htail, hvalue⟩ := ih hl.2 hnames.2 hfree.2 ha
      refine ⟨tail, ?_, hvalue⟩
      cases l with
      | nil => cases ha
      | cons d l =>
        rw [trimEnd_join_cons, trimEnd_append_of_ne_nil (by simp [trimEnd_following_cons]),
          trimEnd_following_cons]
        have hlast := Segment.lastDataType?_append htail
          (b.name.toList ++ '=' :: (b.value.toList ++ [',', ' ']))
        simpa using hlast

theorem dataType?_join_of_mem (hl : ∀ a ∈ l, a.Admissible parses) (hnames : (l.map (·.name)).Nodup)
    (hfree : ∀ a ∈ l, ¬ "DataType".toList <:+: a.value.toList) (ha : a ∈ l) (hname : a.name = "DataType") :
    Segment.dataType? (trimEnd (join l).toList) = some a.core := by
  obtain ⟨tail, htail, hvalue⟩ := exists_lastDataType?_join hl hnames hfree ha hname
  have htrim : trimEnd a.core = a.core := List.rdropWhile_idempotent _ _
  have hcore := ((hl a ha).of_dataType hname).1
  simp [Segment.dataType?, htail, hvalue, htrim, hcore]

theorem dataType?_join_of_not_mem (hl : ∀ a ∈ l, a.Admissible parses)
    (hnames : ∀ a ∈ l, a.name ≠ "DataType")
    (hfree : ∀ a ∈ l, ¬ "DataType".toList <:+: a.value.toList) :
    Segment.dataType? (trimEnd (join l).toList) = none := by
  have hprefix : trimEnd (join l).toList <+: (join l).toList := List.rdropWhile_prefix _ _
  have hjoin : ¬ "DataType".toList <:+: (join l).toList := by
    cases l with
    | nil => exact fun h => absurd h.length_le (by decide)
    | cons a l =>
      have hmark : '=' ∉ "DataType".toList := by decide
      simp only [List.forall_mem_cons] at hl hnames hfree
      rw [toList_join_cons]
      exact fun h => (Segment.infix_append_cons hmark h).elim (hl.1.name_free hnames.1)
        (following_free hl.2 hnames.2 hfree.2 hfree.1)
  rw [Segment.dataType?, Segment.lastDataType?_eq_none fun h => hjoin (h.trans hprefix.isInfix)]
  rfl

/-- The data type does not depend on the order of the segments. -/
theorem dataType?_join_perm {l' : List NamedValue} (hperm : l.Perm l') (hl : ∀ a ∈ l, a.Admissible parses)
    (hnames : (l.map (·.name)).Nodup) (hfree : ∀ a ∈ l, ¬ "DataType".toList <:+: a.value.toList) :
    Segment.dataType? (trimEnd (join l').toList) = Segment.dataType? (trimEnd (join l).toList) := by
  have hl' : ∀ a ∈ l', a.Admissible parses := fun a ha => hl a (hperm.mem_iff.mpr ha)
  have hfree' : ∀ a ∈ l', ¬ "DataType".toList <:+: a.value.toList :=
    fun a ha => hfree a (hperm.mem_iff.mpr ha)
  by_cases h : ∃ a ∈ l, a.name = "DataType"
  · obtain ⟨a, ha, hname⟩ := h
    rw [dataType?_join_of_mem hl hnames hfree ha hname, dataType?_join_of_mem hl'
      ((hperm.map _).nodup_iff.mp hnames) hfree' (hperm.mem_iff.mp ha) hname]
  · push Not at h
    rw [dataType?_join_of_not_mem hl h hfree,
      dataType?_join_of_not_mem hl' (fun a ha => h a (hperm.mem_iff.mpr ha)) hfree']

end NamedValue

/-! ## Arguments in another order -/

namespace Argument

/-- The same arguments, each at most once, in some order and at some positions. -/
structure Agree (as bs : List Argument) : Prop where
  perm : (as.map (placedAt 0)).Perm (bs.map (placedAt 0))
  nodup : (as.map slot).Nodup

variable {as bs : List Argument}

theorem Agree.symm (h : Agree as bs) : Agree bs as where
  perm := h.perm.symm
  nodup := by
    have hslots := (h.perm.map slot).nodup_iff
    simp only [List.map_map, Function.comp_def, slot_placedAt] at hslots
    exact hslots.mp h.nodup

theorem Agree.exists_mem (h : Agree as bs) {P : Argument → Prop} (hP : ∀ a, P (a.placedAt 0) ↔ P a) :
    (∃ a ∈ as, P a) ↔ ∃ b ∈ bs, P b := by
  have hplaced : ∀ l : List Argument, (∃ a ∈ l, P a) ↔ ∃ a ∈ l.map (placedAt 0), P a := by
    intro l
    simp [hP]
  rw [hplaced as, hplaced bs]
  simp only [h.perm.mem_iff]

/-- If no slot occurs twice, what is looked for in one slot is found wherever it is. -/
theorem last?_eq_some_iff {α : Type} {f : Argument → Option α}
    (hf : ∀ a b, (f a).isSome → (f b).isSome → a.slot = b.slot) (hnodup : (as.map slot).Nodup) {x : α} :
    Declaration.last? f as = some x ↔ ∃ a ∈ as, f a = some x := by
  constructor
  · intro h
    obtain ⟨a, ha, hfound⟩ := List.exists_of_findSome?_eq_some h
    exact ⟨a, List.mem_reverse.mp ha, hfound⟩
  · rintro ⟨a, ha, hfound⟩
    cases hlast : Declaration.last? f as with
    | none =>
      have hnone := List.findSome?_eq_none_iff.mp hlast a (List.mem_reverse.mpr ha)
      simp [hfound] at hnone
    | some y =>
      obtain ⟨b, hb, hother⟩ := List.exists_of_findSome?_eq_some hlast
      have hslot := hf a b (by simp [hfound]) (by simp [hother])
      obtain rfl := List.inj_on_of_nodup_map hnodup ha (List.mem_reverse.mp hb) hslot
      exact hother.symm.trans hfound

theorem Agree.last?_eq {α : Type} (h : Agree as bs) {f : Argument → Option α}
    (hplaced : ∀ a, f (a.placedAt 0) = f a)
    (hf : ∀ a b, (f a).isSome → (f b).isSome → a.slot = b.slot) :
    Declaration.last? f as = Declaration.last? f bs := by
  ext x
  rw [last?_eq_some_iff hf h.nodup, last?_eq_some_iff hf h.symm.nodup]
  exact h.exists_mem fun a => by rw [hplaced]

end Argument

namespace Declaration

open Argument

variable {as bs : List Argument}

theorem expr?_eq (h : Agree as bs) (role : Role) : expr? role as = expr? role bs := by
  unfold expr? placed? last?
  rw [List.map_findSome?, List.map_findSome?]
  apply h.last?_eq
  · intro a
    cases a with
    | expression r e start namespaces resource => by_cases hr : r = role <;> simp [placedAt, hr]
    | _ => rfl
  · intro a b
    cases a <;> cases b <;> (simp [slot]; try grind)

theorem format?_eq (h : Agree as bs) : format? as = format? bs := by
  apply h.last?_eq
  · intro a
    cases a <;> rfl
  · intro a b
    cases a <;> cases b <;> simp [slot]

theorem mode?_eq (h : Agree as bs) : mode? as = mode? bs := by
  apply h.last?_eq
  · intro a
    cases a <;> rfl
  · intro a b
    cases a <;> cases b <;> simp [slot]

theorem isItemsSource_eq (h : Agree as bs) : isItemsSource as = isItemsSource bs := by
  unfold isItemsSource
  rw [h.last?_eq]
  · intro a
    cases a <;> rfl
  · intro a b
    cases a <;> cases b <;> simp [slot]

theorem impliesTwoWay_eq (h : Agree as bs) : impliesTwoWay as = impliesTwoWay bs := by
  rw [Bool.eq_iff_iff, impliesTwoWay, impliesTwoWay, List.any_eq_true, List.any_eq_true]
  apply h.exists_mem
  intro a
  cases a with
  | expression r e start namespaces resource => cases r <;> rfl
  | _ => rfl

theorem resources_perm (h : Agree as bs) : (resources as).Perm (resources bs) := by
  have hplaced : ∀ l : List Argument, resources (l.map (placedAt 0)) = resources l := by
    intro l
    unfold resources
    rw [List.filterMap_map]
    congr
    funext a
    cases a <;> rfl
  rw [← hplaced as, ← hplaced bs]
  exact h.perm.filterMap _

theorem namespaces_perm (h : Agree as bs) : (namespaces as).Perm (namespaces bs) := by
  apply (List.perm_ext_iff_of_nodup (nodup_distinct _) (nodup_distinct _)).mpr
  intro ns
  simp only [mem_distinct, List.mem_flatMap]
  apply h.exists_mem
  intro a
  cases a <;> rfl

def eventsOf? : Argument → Option (List Event)
  | .events es => some es
  | _ => none

theorem slot_of_eventsOf? {a : Argument} (h : (eventsOf? a).isSome) : a.slot = "UpdateSourceEventNames" := by
  cases a <;> first | rfl | cases h

theorem events_eq_last? (hnodup : (as.map slot).Nodup) :
    events as = distinct ((last? eventsOf? as).getD []) := by
  unfold events
  congr 1
  induction as with
  | nil => rfl
  | cons a as ih =>
    rw [List.map_cons, List.nodup_cons] at hnodup
    have hcons : last? eventsOf? (a :: as) = (last? eventsOf? as <|> eventsOf? a) := by
      simp [last?, List.findSome?_append]
    rw [List.flatMap_cons, ih hnodup.2, hcons]
    cases a with
    | events es =>
      have hnone : last? eventsOf? as = none := by
        rw [last?, List.findSome?_eq_none_iff]
        intro b hb
        by_contra hsome
        have hslot := slot_of_eventsOf? (Option.isSome_iff_ne_none.mpr hsome)
        exact hnodup.1 (List.mem_map.mpr ⟨b, List.mem_reverse.mp hb, hslot⟩)
      simp [hnone, eventsOf?]
    | _ => simp [eventsOf?]

theorem events_eq (h : Agree as bs) : events as = events bs := by
  rw [events_eq_last? h.nodup, events_eq_last? h.symm.nodup, h.last?_eq]
  · intro a
    cases a <;> rfl
  · exact fun a b ha hb => (slot_of_eventsOf? ha).trans (slot_of_eventsOf? hb).symm

theorem mode_eq (h : Agree as bs) (default : BindingMode) : mode default as = mode default bs := by
  simp only [mode, expr?_eq h, mode?_eq h, impliesTwoWay_eq h]

/-- Only the place of a fault depends on where the path stands. -/
theorem checkSettable_eq_ok (h : Agree as bs) {mode : BindingMode} {m n : Nat}
    (hok : checkSettable mode m as = .ok ()) : checkSettable mode n bs = .ok () := by
  have hpath : (placed? .path as).map (·.1) = (placed? .path bs).map (·.1) := expr?_eq h .path
  unfold checkSettable at hok ⊢
  rw [← expr?_eq h]
  cases has : placed? .path as with
  | none => grind
  | some p => grind

theorem checkItemsSource_eq (h : Agree as bs) : checkItemsSource as = checkItemsSource bs := by
  simp only [checkItemsSource, isItemsSource_eq h, expr?_eq h]

theorem converted_eq (h : Agree as bs) (c : Context) (site : Site) (e : Expr) :
    converted c site as e = converted c site bs e := by
  simp only [converted, expr?_eq h]

theorem withoutNull_eq (h : Agree as bs) (e : Expr) : withoutNull as e = withoutNull bs e := by
  simp only [withoutNull, expr?_eq h]

theorem withFallback_eq (h : Agree as bs) (c : Context) (number : Nat) (e : Expr) :
    withFallback c as number e = withFallback c bs number e := by
  simp only [withFallback, expr?_eq h]

theorem formatted_eq (h : Agree as bs) (e : Expr) : formatted as e = formatted bs e := by
  simp only [formatted, format?_eq h]

theorem value_eq (h : Agree as bs) (c : Context) (site : Site) : value c site as = value c site bs := by
  simp only [value, expr?_eq h, converted_eq h, withoutNull_eq h, withFallback_eq h, formatted_eq h]

end Declaration

/-! ## Declarations in another order -/

/-- The same binding for another text of its declaration, up to the order of resources and namespaces. -/
structure Binding.Reordered (b b' : Binding) : Prop where
  same : b' = { b with
    site := { b.site with text := b'.site.text }, resources := b'.resources, namespaces := b'.namespaces }
  resources : b.resources.Perm b'.resources
  namespaces : b.namespaces.Perm b'.namespaces

namespace Declaration

open Argument

variable {c : Context} {site : Site} {number : Nat} {t t' : List Char} {as bs : List Argument}

/-- The arguments depend on the text of the site only in so far as it is what is read. -/
theorem ofText_site (type : TypeRef) (text : String) :
    ofText ⟨c, { site with text := text }, type⟩ t = ofText ⟨c, site, type⟩ t := by
  have hread (pathKnown : Bool) (p : Place) :
      read ⟨c, { site with text := text }, type⟩ pathKnown p = read ⟨c, site, type⟩ pathKnown p := rfl
  suffices h : ∀ bound pathKnown p, readAll ⟨c, { site with text := text }, type⟩ bound pathKnown p =
      readAll ⟨c, site, type⟩ bound pathKnown p from h _ _ _
  intro bound
  induction bound with
  | zero => exact fun _ _ => rfl
  | succ bound ih => simp only [readAll, hread, ih, implies_true]

/-- A declaration with arguments that agree has the same binding. -/
theorem exists_binding_reordered {text : String} {b : Binding} {next : Nat} (text' : String) (hne : t' ≠ [])
    (hdata : Segment.dataType? t' = Segment.dataType? t)
    (hagree : ∀ found as, sourceType c site t = .ok found → ofText ⟨c, site, found.2.2⟩ t = .ok as →
      ∃ bs, ofText ⟨c, site, found.2.2⟩ t' = .ok bs ∧ Agree as bs)
    (h : (binding c { site with text := text } t).run.run number = (.ok b, next)) :
    ∃ b', (binding c { site with text := text' } t').run.run number = (.ok b', next) ∧ b.Reordered b' := by
  obtain ⟨-, found, as, mode, value, hfound, has, hmode, hsettable, hitems, hvalue, rfl⟩ :=
    binding_eq_ok.mp h
  rw [ofText_site] at has
  obtain ⟨bs, hbs, hagree⟩ := hagree found as hfound has
  rw [← ofText_site found.2.2 text'] at hbs
  have hfound' : sourceType c { site with text := text' } t' = .ok found := by
    rw [← hfound]
    simp only [sourceType, hdata]
  refine ⟨_, binding_eq_ok.mpr ⟨hne, found, bs, mode, value, hfound', hbs, ?_, ?_, ?_, ?_, rfl⟩, ?_⟩
  · rw [← mode_eq hagree, hmode]
  · exact checkSettable_eq_ok hagree hsettable
  · rw [← checkItemsSource_eq hagree, hitems]
  · rw [← value_eq hagree, ← hvalue]
    rfl
  · constructor
    · simp only [expr?_eq hagree, format?_eq hagree, isItemsSource_eq hagree, events_eq hagree]
    · exact resources_perm hagree
    · exact namespaces_perm hagree

end Declaration

namespace NamedValue

open Argument

variable {s : Setting} {l l' : List NamedValue}

theorem length_le_trimEnd_join (l : List NamedValue) : l.length ≤ (trimEnd (join l).toList).length := by
  induction l with
  | nil => simp
  | cons a l ih =>
    rw [trimEnd_join_cons]
    cases l with
    | nil => simp; omega
    | cons b l =>
      rw [trimEnd_append_of_ne_nil (by simp [trimEnd_following_cons]), trimEnd_following_cons]
      simp only [List.length_append, List.length_cons] at ih ⊢
      omega

/-- The arguments of a declaration agree with those of its segments in any other order. -/
theorem exists_ofText_join_perm (hperm : l.Perm l') (hl : ∀ a ∈ l, a.Admissible s.Parses)
    (hnames : (l.map (·.name)).Nodup) {as : List Argument}
    (h : ofText s (trimEnd (join l).toList) = .ok as) :
    ∃ bs, ofText s (trimEnd (join l').toList) = .ok bs ∧ Agree as bs := by
  choose! found hfound using fun a (ha : a ∈ l) => exists_readsAs (hl a ha)
  -- either order gives the arguments that the segments read as
  have hread {k : List NamedValue} (hk : k.Perm l) :
      (∃ as, ofText s (trimEnd (join k).toList) = .ok as ∧
        as.map (fun a => some (a.placedAt 0)) = k.map fun a => (found a).map (placedAt 0)) ∨
      (∃ fault, ofText s (trimEnd (join k).toList) = .error fault) ∧ ∃ a ∈ k, found a = none := by
    have hadmissible : ∀ a ∈ k, a.Admissible s.Parses := fun a ha => hl a (hk.mem_iff.mp ha)
    exact readAll_join hadmissible ((hk.map _).nodup_iff.mpr hnames)
      (fun a ha => hfound a (hk.mem_iff.mp ha)) (length_le_trimEnd_join k) (by simp)
      (sharp_trimEnd_join hadmissible).trimStart
  obtain ⟨as', has', hmap⟩ | ⟨⟨fault, hfault⟩, -⟩ := hread (.refl l)
  swap
  · rw [hfault] at h
    cases h
  obtain rfl : as' = as := Except.ok.inj (has'.symm.trans h)
  have hsome : ∀ a ∈ l, ∃ x, found a = some x := by
    intro a ha
    have hmem : (found a).map (placedAt 0) ∈ as'.map fun a => some (a.placedAt 0) := by
      rw [hmap]
      exact List.mem_map_of_mem ha
    cases hx : found a with
    | none => simp [hx] at hmem
    | some x => exact ⟨x, rfl⟩
  obtain ⟨bs, hbs, hmap'⟩ | ⟨-, a, ha, hnone⟩ := hread hperm.symm
  swap
  · obtain ⟨x, hx⟩ := hsome a (hperm.mem_iff.mpr ha)
    rw [hnone] at hx
    cases hx
  refine ⟨bs, hbs, ?_, ?_⟩
  · have hplaced := (hperm.map fun a => (found a).map (placedAt 0)).filterMap id
    rw [← hmap, ← hmap'] at hplaced
    simpa [List.filterMap_map, Function.comp_def] using hplaced
  · have hslots : (as'.map slot).map some = (l.map (·.name)).map some := by
      have hslot := congrArg (List.map (Option.map slot)) hmap
      simp only [List.map_map, Function.comp_def, Option.map_some, slot_placedAt, Option.map_map] at hslot
      rw [List.map_map, Function.comp_def, hslot, List.map_map]
      apply List.map_congr_left
      intro a ha
      obtain ⟨x, hx⟩ := hsome a ha
      simp [hx, (hfound a ha).2 x hx]
    rw [List.map_injective_iff.mpr (fun _ _ => Option.some.inj) hslots]
    exact hnames

end NamedValue

/-- The texts that fill an expression in the setting that a declaration has. -/
def Declaration.Parses (c : Context) (site : Site) (text value : String) : Prop :=
  ∀ found, Declaration.sourceType c site (trimEnd text.toList) = .ok found →
    Argument.Setting.Parses ⟨c, site, found.2.2⟩ value

namespace Binding

variable {c : Context} {site : Site} {number : Nat} {l l' : List NamedValue}

theorem exists_ofSite_join_perm (hperm : l.Perm l') (hnames : (l.map (·.name)).Nodup)
    (hl : ∀ a ∈ l, a.Admissible (Declaration.Parses c site (join l)))
    (hfree : ∀ a ∈ l, ¬ "DataType".toList <:+: a.value.toList) {b : Binding} {next : Nat}
    (h : ofSite c { site with text := join l } number = .ok (b, next)) :
    ∃ b', ofSite c { site with text := join l' } number = .ok (b', next) ∧ b.Reordered b' := by
  have hbinding := ofSite_eq_ok.mp h
  have hne : trimEnd (join l').toList ≠ [] := by
    have hne := (Declaration.binding_eq_ok.mp hbinding).1
    cases l' with
    | nil =>
      obtain rfl := hperm.eq_nil
      exact hne
    | cons a l' => simp [trimEnd_join_cons]
  obtain ⟨b', hb', hreordered⟩ := Declaration.exists_binding_reordered (join l') hne
    (dataType?_join_perm hperm hl hnames hfree)
    (fun found as hfound has => exists_ofText_join_perm hperm
      (fun a ha => (hl a ha).mono fun value hvalue => hvalue found hfound) hnames has) hbinding
  exact ⟨b', ofSite_eq_ok.mpr hb', hreordered⟩

/-- The order of named arguments does not matter: the declarations have both no binding, or the same
binding up to the text of the site and the order of resources and namespaces, and the same next number. -/
theorem ofSite_join_perm (c : Context) (site : Site) (number : Nat) (l l' : List NamedValue)
    (hperm : l.Perm l') (hnames : (l.map (·.name)).Nodup)
    (hl : ∀ a ∈ l, a.Admissible (Declaration.Parses c site (join l)))
    (hfree : ∀ a ∈ l, ¬ "DataType".toList <:+: a.value.toList) :
    (∃ fault fault', ofSite c { site with text := join l } number = .error fault ∧
      ofSite c { site with text := join l' } number = .error fault') ∨
    ∃ b b' next, ofSite c { site with text := join l } number = .ok (b, next) ∧
      ofSite c { site with text := join l' } number = .ok (b', next) ∧ b.Reordered b' := by
  have hsource : Declaration.sourceType c site (trimEnd (join l').toList) =
      Declaration.sourceType c site (trimEnd (join l).toList) := by
    simp only [Declaration.sourceType, dataType?_join_perm hperm hl hnames hfree]
  cases h : ofSite c { site with text := join l } number with
  | ok result =>
    obtain ⟨b', hb', hreordered⟩ := exists_ofSite_join_perm hperm hnames hl hfree h
    exact Or.inr ⟨result.1, b', result.2, rfl, hb', hreordered⟩
  | error fault =>
    cases h' : ofSite c { site with text := join l' } number with
    | error fault' => exact Or.inl ⟨fault, fault', rfl, rfl⟩
    | ok result =>
      -- the first order is one of the others of the second
      obtain ⟨b, hb, -⟩ := exists_ofSite_join_perm hperm.symm ((hperm.map _).nodup_iff.mp hnames)
        (fun a ha => (hl a (hperm.mem_iff.mpr ha)).mono fun value hvalue found hfound =>
          hvalue found (hsource.symm.trans hfound))
        (fun a ha => hfree a (hperm.mem_iff.mpr ha)) h'
      rw [h] at hb
      cases hb

/-- A page with a title, whose paths start from it. -/
def titleContext : Context where
  registry := Grammar.titlePage.registry
  sourceType := .named "Page"
  targetType := .named "Page"
  rootName := "dataRoot"
  defaultMode := .oneTime
  converterType := none
  requireDataType := false

def titleSite : Site where
  text := ""
  object := ⟨"label", .named "UI.Label"⟩
  member := "Text"
  memberType := .string

def titleArguments : List NamedValue :=
  [⟨"Path", "Title + ', ' "⟩, ⟨"FallbackValue", "\x7bStaticResource missing\x7d"⟩, ⟨"DataType", "Page"⟩,
    ⟨"StringFormat", "'(\x7b0\x7d, 1)'"⟩, ⟨"Mode", " OneWay"⟩]

/-- The title with a comma, its fallback and its format are the same in the opposite order. -/
theorem title_reversed : ∃ b b' next,
    ofSite titleContext { titleSite with text := join titleArguments } 0 = .ok (b, next) ∧
    ofSite titleContext { titleSite with text := join titleArguments.reverse } 0 = .ok (b', next) ∧
    b.Reordered b' := by
  have hparses : Declaration.Parses titleContext titleSite (join titleArguments) "Title + ', ' " := by
    intro found hfound
    have hsource : Declaration.sourceType titleContext titleSite (trimEnd (join titleArguments).toList) =
        .ok (some (.named "Page"), true, .named "Page") := by decide +kernel
    cases hsource.symm.trans hfound
    obtain ⟨p, hp, -⟩ := exists_ok (P := fun _ => true) (show (Grammar.parseText
      (Argument.Setting.grammar ⟨titleContext, titleSite, .named "Page"⟩) "Title + ', ' " true).toOption.any
        (fun _ => true) = true by decide +kernel)
    exact ⟨p, hp⟩
  have hadmissible : ∀ a ∈ titleArguments,
      a.Admissible (Declaration.Parses titleContext titleSite (join titleArguments)) := by
    simp only [titleArguments, List.forall_mem_cons]
    refine ⟨.expression .path _ hparses, .resource .fallback _ "missing".toList ?_ ?_ ?_ ?_,
      .plain _ _ ?_ ?_ ?_ ?_, .format _ "(\x7b0\x7d, 1)".toList ?_ ?_, .plain _ _ ?_ ?_ ?_ ?_,
      List.forall_mem_nil _⟩ <;> decide +kernel
  rcases ofSite_join_perm titleContext titleSite 0 titleArguments titleArguments.reverse
    (List.reverse_perm _).symm (by decide) hadmissible (by decide +kernel) with ⟨fault, -, hfault, -⟩ | h
  · obtain ⟨result, hresult, -⟩ := exists_ok (P := fun _ => true) (show (ofSite titleContext
      { titleSite with text := join titleArguments } 0).toOption.any (fun _ => true) = true by decide +kernel)
    rw [hresult] at hfault
    cases hfault
  · exact h

/-- A blank data type is read in front of another argument and is a fault at the end. -/
theorem blank_data_type_ordered :
    (∃ b next, ofSite titleContext
      { titleSite with text := join [⟨"DataType", " "⟩, ⟨"Path", "Title"⟩] } 0 = .ok (b, next)) ∧
    ∃ fault, ofSite titleContext
      { titleSite with text := join [⟨"Path", "Title"⟩, ⟨"DataType", " "⟩] } 0 = .error fault := by
  constructor
  · obtain ⟨result, hresult, -⟩ := exists_ok (P := fun _ => true) (show (ofSite titleContext
      { titleSite with text := join [⟨"DataType", " "⟩, ⟨"Path", "Title"⟩] } 0).toOption.any
        (fun _ => true) = true by decide +kernel)
    exact ⟨result.1, result.2, hresult⟩
  · cases h : ofSite titleContext { titleSite with text := join [⟨"Path", "Title"⟩, ⟨"DataType", " "⟩] } 0 with
    | error fault => exact ⟨fault, rfl⟩
    | ok result =>
      have hnone : (ofSite titleContext { titleSite with
          text := join [⟨"Path", "Title"⟩, ⟨"DataType", " "⟩] } 0).toOption.isNone = true := by
        decide +kernel
      simp [h, Except.toOption] at hnone

end Binding

end DataBinding
