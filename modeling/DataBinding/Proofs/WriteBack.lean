import DataBinding.Proofs.Membership
import DataBinding.WriteBack

/-!
# Every binding is written back by its handlers

A handler has a key: its object together with the name of its events or of its dependency property. A
binding that writes back calls for the keys of its events or, without events, for that of its dependency
property. There is one handler for each key that is called for, it writes back exactly the bindings that
call for it, and the handlers for events come first.
-/
namespace DataBinding

namespace WriteBack

/-- An object, and an event or a dependency property of it by name. -/
inductive Key where
  | event (object name : String)
  | property (object name : String)
  deriving DecidableEq, Repr

/-- The handler runs after events of the object, all of the name, or when its dependency property of the
name changes. -/
def HasKey (w : WriteBack) : Key → Prop
  | .event object name => w.object.name = object ∧
      ∃ es, w.trigger = .events es ∧ es ≠ [] ∧ ∀ e ∈ es, e.name = name
  | .property object name => w.object.name = object ∧ ∃ m, w.trigger = .property m ∧ m.name = name

theorem HasKey.unique {w : WriteBack} {k k' : Key} (h : w.HasKey k) (h' : w.HasKey k') : k = k' := by
  cases k with
  | event object name =>
    obtain ⟨rfl, es, hes, hne, hname⟩ := h
    cases k' with
    | event object' name' =>
      obtain ⟨rfl, es', hes', -, hname'⟩ := h'
      obtain rfl : es = es' := Trigger.events.inj (hes.symm.trans hes')
      obtain ⟨e, he⟩ := List.exists_mem_of_ne_nil es hne
      rw [← hname e he, hname' e he]
    | property object' name' =>
      obtain ⟨-, m, hm, -⟩ := h'
      cases hes.symm.trans hm
  | property object name =>
    obtain ⟨rfl, m, hm, rfl⟩ := h
    cases k' with
    | event object' name' =>
      obtain ⟨-, es', hes', -⟩ := h'
      cases hm.symm.trans hes'
    | property object' name' =>
      obtain ⟨rfl, m', hm', rfl⟩ := h'
      rw [Trigger.property.inj (hm.symm.trans hm')]

def isForEvents (w : WriteBack) : Bool :=
  match w.trigger with
  | .events _ => true
  | .property _ => false

end WriteBack

/-- The binding is written back after the event, or when the dependency property changes. -/
inductive Binding.CallsFor (b : Binding) : WriteBack.Key → Prop where
  | event (hmode : b.mode = .twoWay ∨ b.mode = .oneWayToSource) {e : Event} (he : e ∈ b.events) :
    b.CallsFor (.event b.site.object.name e.name)
  | property (hmode : b.mode = .twoWay ∨ b.mode = .oneWayToSource) (hnone : b.events = []) {m : Member}
    (hm : b.dependencyProperty = some m) : b.CallsFor (.property b.site.object.name m.name)

theorem BindingMode.writesBack_iff {m : BindingMode} :
    m.writesBack = true ↔ m = .twoWay ∨ m = .oneWayToSource := by
  cases m <;> simp [writesBack]

namespace WriteBack

/-! ## Occasions -/

section Occasions

variable {bs : List Binding}

theorem mem_eventOccasions {o : Occasion Event} : o ∈ eventOccasions bs ↔
    ∃ b, bs[o.binding]? = some b ∧ b.mode.writesBack = true ∧ o.trigger ∈ b.events ∧
      o.object = b.site.object := by
  obtain ⟨i, object, e⟩ := o
  simp only [eventOccasions, List.mem_flatMap, Prod.exists, List.mem_zipIdx_iff_getElem?]
  constructor
  · rintro ⟨b, j, hb, ho⟩
    split at ho
    · rename_i hmode
      obtain ⟨e', he', heq⟩ := List.mem_map.mp ho
      cases heq
      exact ⟨b, hb, hmode, he', rfl⟩
    · cases ho
  · rintro ⟨b, hb, hmode, he, rfl⟩
    refine ⟨b, i, hb, ?_⟩
    rw [if_pos hmode]
    exact List.mem_map.mpr ⟨e, he, rfl⟩

theorem mem_propertyOccasions {o : Occasion Member} : o ∈ propertyOccasions bs ↔
    ∃ b, bs[o.binding]? = some b ∧ b.mode.writesBack = true ∧ b.events = [] ∧
      b.dependencyProperty = some o.trigger ∧ o.object = b.site.object := by
  obtain ⟨i, object, m⟩ := o
  simp only [propertyOccasions, List.mem_filterMap, Prod.exists, List.mem_zipIdx_iff_getElem?]
  constructor
  · rintro ⟨b, j, hb, ho⟩
    split at ho
    · rename_i hmode
      obtain ⟨m', hm', heq⟩ := Option.map_eq_some_iff.mp ho
      cases heq
      rw [Bool.and_eq_true, List.isEmpty_iff] at hmode
      exact ⟨b, hb, hmode.1, hmode.2, hm', rfl⟩
    · cases ho
  · rintro ⟨b, hb, hmode, hnone, hm, rfl⟩
    refine ⟨b, i, hb, ?_⟩
    rw [if_pos (by simp [hmode, hnone]), hm]
    rfl

theorem pairwise_eventOccasions (bs : List Binding) :
    (eventOccasions bs).Pairwise fun o o' => o.binding ≤ o'.binding := by
  apply pairwise_flatMap_zipIdx
  rintro ⟨b, i⟩ o ho
  dsimp only at ho
  split at ho
  · obtain ⟨e, -, rfl⟩ := List.mem_map.mp ho
    rfl
  · cases ho

theorem pairwise_propertyOccasions (bs : List Binding) :
    (propertyOccasions bs).Pairwise fun o o' => o.binding ≤ o'.binding := by
  rw [propertyOccasions, List.filterMap_eq_flatMap_toList]
  apply pairwise_flatMap_zipIdx
  rintro ⟨b, i⟩ o ho
  rw [Option.mem_toList] at ho
  dsimp only at ho
  split at ho
  · obtain ⟨m, -, rfl⟩ := Option.map_eq_some_iff.mp ho
    rfl
  · cases ho

end Occasions

/-! ## Handlers for occasions of one kind -/

def Occasion.names {α : Type} (name : α → String) (o : Occasion α) : String × String :=
  (o.object.name, name o.trigger)

section Handlers

variable {α : Type} (name : α → String) (trigger : α → List α → Trigger) (os : List (Occasion α))

def handler? (names : String × String) : Option WriteBack :=
  let group := os.filter fun o => o.names name == names
  group.head?.map fun first =>
    ⟨0, first.object, bindingsOf group, trigger first.trigger (group.map (·.trigger))⟩

def handlers : List WriteBack := (distinct (os.map (·.names name))).filterMap (handler? name trigger os)

variable {name trigger os} {w : WriteBack} {names : String × String}

/-- A handler has the object and the trigger of its first occasion. -/
theorem handler?_eq_some (h : handler? name trigger os names = some w) : ∃ first ∈ os,
    first.names name = names ∧ w.object = first.object ∧
      w.trigger = trigger first.trigger ((os.filter fun o => o.names name == names).map (·.trigger)) := by
  obtain ⟨first, hfirst, rfl⟩ := Option.map_eq_some_iff.mp h
  obtain ⟨hmem, hnames⟩ := List.mem_filter.mp (List.mem_of_mem_head? hfirst)
  exact ⟨first, hmem, beq_iff_eq.mp hnames, rfl, rfl⟩

theorem mem_bindings_of_handler? (h : handler? name trigger os names = some w) {i : Nat} :
    i ∈ w.bindings ↔ ∃ o ∈ os, o.names name = names ∧ o.binding = i := by
  obtain ⟨first, -, rfl⟩ := Option.map_eq_some_iff.mp h
  simp [bindingsOf, and_assoc]

theorem pairwise_bindings_of_handler? (hos : os.Pairwise fun o o' => o.binding ≤ o'.binding)
    (h : handler? name trigger os names = some w) : w.bindings.Pairwise (· < ·) := by
  obtain ⟨first, -, rfl⟩ := Option.map_eq_some_iff.mp h
  apply pairwise_lt_distinct
  rw [List.pairwise_map]
  exact hos.sublist List.filter_sublist

theorem mem_handlers : w ∈ handlers name trigger os ↔ ∃ names, handler? name trigger os names = some w := by
  rw [handlers, List.mem_filterMap]
  constructor
  · rintro ⟨names, -, h⟩
    exact ⟨names, h⟩
  · rintro ⟨names, h⟩
    obtain ⟨first, hfirst, rfl, -⟩ := handler?_eq_some h
    exact ⟨_, mem_distinct.mpr (List.mem_map_of_mem hfirst), h⟩

variable (name trigger) in
theorem exists_handler? {o : Occasion α} (ho : o ∈ os) :
    ∃ w, handler? name trigger os (o.names name) = some w := by
  cases hgroup : os.filter (fun o' => o'.names name == o.names name) with
  | nil => simpa using List.filter_eq_nil_iff.mp hgroup o ho
  | cons first rest => exact ⟨_, by rw [handler?, hgroup]; rfl⟩

end Handlers

/-! ## Keys that are served -/

/-- There is one handler for each of the keys that a binding calls for, and it has all these bindings. -/
structure Serves (bs : List Binding) (keys : Key → Prop) (ws : List WriteBack) : Prop where
  keyed : ∀ w ∈ ws, ∃ k, keys k ∧ w.HasKey k
  apart : ws.Pairwise fun v w => ∀ k, v.HasKey k → ¬ w.HasKey k
  served : ∀ (i : Nat) (b : Binding) (k : Key), keys k → bs[i]? = some b → b.CallsFor k →
    ∃ w ∈ ws, w.HasKey k
  members : ∀ w ∈ ws, ∀ k, w.HasKey k → ∀ i, i ∈ w.bindings ↔ ∃ b, bs[i]? = some b ∧ b.CallsFor k
  increasing : ∀ w ∈ ws, w.bindings.Pairwise (· < ·)

section Serves

variable {bs : List Binding} {keys keys' : Key → Prop} {vs ws : List WriteBack}

/-- Handlers for occasions serve the keys that the names give. -/
theorem handlers_serves {α : Type} {name : α → String} {trigger : α → List α → Trigger}
    {os : List (Occasion α)} {key : String × String → Key} (hinjective : key.Injective)
    (hsorted : os.Pairwise fun o o' => o.binding ≤ o'.binding)
    (hkey : ∀ names w, handler? name trigger os names = some w → w.HasKey (key names))
    (hcalls : ∀ i names, (∃ o ∈ os, o.names name = names ∧ o.binding = i) ↔
      ∃ b, bs[i]? = some b ∧ b.CallsFor (key names)) :
    Serves bs (fun k => ∃ names, k = key names) (handlers name trigger os) where
  keyed := by
    intro w hw
    obtain ⟨names, h⟩ := mem_handlers.mp hw
    exact ⟨key names, ⟨names, rfl⟩, hkey names w h⟩
  apart := by
    rw [handlers, List.pairwise_filterMap]
    refine (nodup_distinct _).imp fun {n n'} hne v hv w hw k hvk hwk => hne (hinjective ?_)
    rw [(hkey n v hv).unique hvk, (hkey n' w hw).unique hwk]
  served := by
    rintro i b _ ⟨names, rfl⟩ hb hcall
    obtain ⟨o, ho, rfl, -⟩ := (hcalls i names).mpr ⟨b, hb, hcall⟩
    obtain ⟨w, hw⟩ := exists_handler? name trigger ho
    exact ⟨w, mem_handlers.mpr ⟨_, hw⟩, hkey _ w hw⟩
  members := by
    intro w hw k hk i
    obtain ⟨names, h⟩ := mem_handlers.mp hw
    obtain rfl := (hkey names w h).unique hk
    rw [mem_bindings_of_handler? h, hcalls]
  increasing := by
    intro w hw
    obtain ⟨names, h⟩ := mem_handlers.mp hw
    exact pairwise_bindings_of_handler? hsorted h

theorem Serves.append (hvs : Serves bs keys vs) (hws : Serves bs keys' ws)
    (hapart : ∀ k, keys k → ¬ keys' k) : Serves bs (fun k => keys k ∨ keys' k) (vs ++ ws) where
  keyed := by
    intro w hw
    rcases List.mem_append.mp hw with hw | hw
    · obtain ⟨k, hk, hwk⟩ := hvs.keyed w hw
      exact ⟨k, Or.inl hk, hwk⟩
    · obtain ⟨k, hk, hwk⟩ := hws.keyed w hw
      exact ⟨k, Or.inr hk, hwk⟩
  apart := by
    refine List.pairwise_append.mpr ⟨hvs.apart, hws.apart, fun v hv w hw k hvk hwk => ?_⟩
    obtain ⟨k₁, hk₁, hvk₁⟩ := hvs.keyed v hv
    obtain ⟨k₂, hk₂, hwk₂⟩ := hws.keyed w hw
    obtain rfl := hvk₁.unique hvk
    obtain rfl := hwk₂.unique hwk
    exact hapart _ hk₁ hk₂
  served := by
    rintro i b k (hk | hk) hb hcall
    · obtain ⟨w, hw, hwk⟩ := hvs.served i b k hk hb hcall
      exact ⟨w, List.mem_append_left ws hw, hwk⟩
    · obtain ⟨w, hw, hwk⟩ := hws.served i b k hk hb hcall
      exact ⟨w, List.mem_append_right vs hw, hwk⟩
  members := by
    intro w hw
    rcases List.mem_append.mp hw with hw | hw
    · exact hvs.members w hw
    · exact hws.members w hw
  increasing := by
    intro w hw
    rcases List.mem_append.mp hw with hw | hw
    · exact hvs.increasing w hw
    · exact hws.increasing w hw

def renumbered (ws : List WriteBack) : List WriteBack := ws.zipIdx.map fun (w, index) => { w with index }

theorem mem_renumbered {w : WriteBack} (hw : w ∈ renumbered ws) :
    ∃ v ∈ ws, ∃ index, w = { v with index } := by
  obtain ⟨⟨v, index⟩, hv, rfl⟩ := List.mem_map.mp hw
  exact ⟨v, List.fst_mem_of_mem_zipIdx hv, index, rfl⟩

theorem pairwise_renumbered {R : WriteBack → WriteBack → Prop} (h : ws.Pairwise R)
    (hR : ∀ v w i j, R v w → R { v with index := i } { w with index := j }) :
    (renumbered ws).Pairwise R := by
  rw [renumbered, List.pairwise_map]
  rw [← List.zipIdx_map_fst 0 ws, List.pairwise_map] at h
  exact h.imp (hR _ _ _ _)

theorem Serves.renumbered (h : Serves bs keys ws) : Serves bs keys (renumbered ws) where
  keyed := by
    intro w hw
    obtain ⟨v, hv, index, rfl⟩ := mem_renumbered hw
    exact h.keyed v hv
  apart := pairwise_renumbered h.apart fun _ _ _ _ hvw => hvw
  served := by
    intro i b k hk hb hcall
    obtain ⟨w, hw, hwk⟩ := h.served i b k hk hb hcall
    obtain ⟨n, hn⟩ := List.mem_iff_getElem?.mp hw
    exact ⟨{ w with index := n }, List.mem_map.mpr ⟨(w, n), List.mem_zipIdx_iff_getElem?.mpr hn, rfl⟩, hwk⟩
  members := by
    intro w hw
    obtain ⟨v, hv, index, rfl⟩ := mem_renumbered hw
    exact h.members v hv
  increasing := by
    intro w hw
    obtain ⟨v, hv, index, rfl⟩ := mem_renumbered hw
    exact h.increasing v hv

/-- A key that is called for has its handler in one place. -/
theorem Serves.existsUnique (h : Serves bs keys ws) {i : Nat} {b : Binding} {k : Key} (hk : keys k)
    (hb : bs[i]? = some b) (hcall : b.CallsFor k) : ∃! n : Nat, ∃ w, ws[n]? = some w ∧ w.HasKey k := by
  obtain ⟨w, hw, hwk⟩ := h.served i b k hk hb hcall
  obtain ⟨n, hn⟩ := List.mem_iff_getElem?.mp hw
  refine ⟨n, ⟨w, hn, hwk⟩, ?_⟩
  rintro m ⟨v, hm, hvk⟩
  obtain ⟨hmlt, rfl⟩ := List.getElem?_eq_some_iff.mp hm
  obtain ⟨hnlt, rfl⟩ := List.getElem?_eq_some_iff.mp hn
  rcases Nat.lt_trichotomy m n with hlt | rfl | hlt
  · exact absurd hwk (List.pairwise_iff_getElem.mp h.apart m n hmlt hnlt hlt k hvk)
  · rfl
  · exact absurd hvk (List.pairwise_iff_getElem.mp h.apart n m hnlt hmlt hlt k hwk)

end Serves

/-! ## Events and dependency properties -/

section Kinds

variable (bs : List Binding)

theorem forEvents_eq : forEvents bs =
    handlers Event.name (fun _ events => .events (distinct events)) (eventOccasions bs) := by
  simp only [forEvents, grouped, groupsBy, List.map_map, List.filterMap_map]
  rfl

theorem forProperties_eq : forProperties bs =
    handlers Member.name (fun m _ => .property m) (propertyOccasions bs) := by
  simp only [forProperties, grouped, groupsBy, List.map_map, List.filterMap_map]
  rfl

theorem eventHandler_hasKey {os : List (Occasion Event)} {names : String × String} {w : WriteBack}
    (h : handler? Event.name (fun _ events => .events (distinct events)) os names = some w) :
    w.HasKey (.event names.1 names.2) := by
  obtain ⟨first, hfirst, rfl, hobject, htrigger⟩ := handler?_eq_some h
  refine ⟨congrArg TargetObject.name hobject, _, htrigger, ?_, ?_⟩
  · apply List.ne_nil_of_mem (a := first.trigger)
    simp only [mem_distinct, List.mem_map, List.mem_filter]
    exact ⟨first, ⟨hfirst, by simp⟩, rfl⟩
  · intro e he
    simp only [mem_distinct, List.mem_map, List.mem_filter, beq_iff_eq] at he
    obtain ⟨o, ⟨-, hnames⟩, rfl⟩ := he
    exact congrArg Prod.snd hnames

theorem forEvents_serves :
    Serves bs (fun k => ∃ names : String × String, k = .event names.1 names.2) (forEvents bs) := by
  rw [forEvents_eq]
  apply handlers_serves _ (pairwise_eventOccasions bs)
  · exact fun names w h => eventHandler_hasKey h
  · rintro i ⟨object, name⟩
    constructor
    · rintro ⟨o, ho, hnames, rfl⟩
      obtain ⟨b, hb, hmode, he, hobject⟩ := mem_eventOccasions.mp ho
      refine ⟨b, hb, ?_⟩
      cases hnames
      rw [hobject]
      exact .event (BindingMode.writesBack_iff.mp hmode) he
    · rintro ⟨b, hb, hcall⟩
      cases hcall with
      | event hmode he =>
        refine ⟨⟨i, b.site.object, _⟩, mem_eventOccasions.mpr ⟨b, hb, ?_, he, rfl⟩, rfl, rfl⟩
        exact BindingMode.writesBack_iff.mpr hmode
  · rintro ⟨object, name⟩ ⟨object', name'⟩ heq
    cases heq
    rfl

theorem forProperties_serves :
    Serves bs (fun k => ∃ names : String × String, k = .property names.1 names.2) (forProperties bs) := by
  rw [forProperties_eq]
  apply handlers_serves _ (pairwise_propertyOccasions bs)
  · rintro names w h
    obtain ⟨first, hfirst, rfl, hobject, htrigger⟩ := handler?_eq_some h
    exact ⟨congrArg TargetObject.name hobject, _, htrigger, rfl⟩
  · rintro i ⟨object, name⟩
    constructor
    · rintro ⟨o, ho, hnames, rfl⟩
      obtain ⟨b, hb, hmode, hnone, hm, hobject⟩ := mem_propertyOccasions.mp ho
      refine ⟨b, hb, ?_⟩
      cases hnames
      rw [hobject]
      exact .property (BindingMode.writesBack_iff.mp hmode) hnone hm
    · rintro ⟨b, hb, hcall⟩
      cases hcall with
      | property hmode hnone hm =>
        refine ⟨⟨i, b.site.object, _⟩, mem_propertyOccasions.mpr ⟨b, hb, ?_, hnone, hm, rfl⟩, rfl, rfl⟩
        exact BindingMode.writesBack_iff.mpr hmode
  · rintro ⟨object, name⟩ ⟨object', name'⟩ heq
    cases heq
    rfl

/-- A handler for events has the events of its name that its bindings give. -/
theorem events_of_mem_forEvents {w : WriteBack} {object name : String} (hw : w ∈ forEvents bs)
    (hk : w.HasKey (.event object name)) : ∃ es, w.trigger = .events es ∧ es.Nodup ∧
      ∀ e, e ∈ es ↔ e.name = name ∧ ∃ i ∈ w.bindings, ∃ b, bs[i]? = some b ∧ e ∈ b.events := by
  rw [forEvents_eq] at hw
  obtain ⟨names, h⟩ := mem_handlers.mp hw
  obtain ⟨rfl, rfl⟩ := Key.event.inj ((eventHandler_hasKey h).unique hk)
  obtain ⟨-, -, -, -, htrigger⟩ := handler?_eq_some h
  refine ⟨_, htrigger, nodup_distinct _, fun e => ?_⟩
  simp only [mem_distinct, List.mem_map, List.mem_filter, beq_iff_eq]
  constructor
  · rintro ⟨o, ⟨ho, rfl⟩, rfl⟩
    obtain ⟨b, hb, -, he, -⟩ := mem_eventOccasions.mp ho
    exact ⟨rfl, o.binding, (mem_bindings_of_handler? h).mpr ⟨o, ho, rfl, rfl⟩, b, hb, he⟩
  · rintro ⟨hname, i, hi, b, hb, he⟩
    -- The binding may have come in by another event of the name.
    obtain ⟨o, ho, rfl, rfl⟩ := (mem_bindings_of_handler? h).mp hi
    obtain ⟨b', hb', hmode, -, hobject⟩ := mem_eventOccasions.mp ho
    obtain rfl : b' = b := Option.some.inj (hb'.symm.trans hb)
    refine ⟨⟨o.binding, o.object, e⟩, ⟨mem_eventOccasions.mpr ⟨b', hb, hmode, he, hobject⟩, ?_⟩, rfl⟩
    exact Prod.ext rfl hname

end Kinds

/-! ## The partition -/

/-- The handlers divide the bindings that write back. -/
structure Partition (bs : List Binding) (ws : List WriteBack) : Prop extends
    Serves bs (fun _ => True) ws where
  numbered : ∀ (n : Nat) (w : WriteBack), ws[n]? = some w → w.index = n
  events_first : ws.Pairwise fun v w => w.isForEvents = true → v.isForEvents = true
  placed : ∀ (i : Nat) (b : Binding) (k : Key), bs[i]? = some b → b.CallsFor k →
    ∃! n : Nat, ∃ w, ws[n]? = some w ∧ w.HasKey k
  same_object : ∀ w ∈ ws, ∀ i ∈ w.bindings, ∃ b, bs[i]? = some b ∧ b.site.object.name = w.object.name
  events : ∀ w ∈ ws, ∀ object name, w.HasKey (.event object name) → ∃ es, w.trigger = .events es ∧
    es.Nodup ∧ ∀ e, e ∈ es ↔ e.name = name ∧ ∃ i ∈ w.bindings, ∃ b, bs[i]? = some b ∧ e ∈ b.events

theorem isForEvents_of_mem_forEvents {bs : List Binding} {w : WriteBack} (hw : w ∈ forEvents bs) :
    w.isForEvents = true := by
  obtain ⟨_, ⟨names, rfl⟩, -, es, hes, -⟩ := (forEvents_serves bs).keyed w hw
  simp [isForEvents, hes]

theorem isForEvents_of_mem_forProperties {bs : List Binding} {w : WriteBack} (hw : w ∈ forProperties bs) :
    w.isForEvents = false := by
  obtain ⟨_, ⟨names, rfl⟩, -, m, hm, -⟩ := (forProperties_serves bs).keyed w hw
  simp [isForEvents, hm]

theorem ofBindings_serves (bs : List Binding) : Serves bs (fun _ => True) (ofBindings bs) := by
  have happart : ∀ k : Key, (∃ names : String × String, k = .event names.1 names.2) →
      ¬ ∃ names : String × String, k = .property names.1 names.2 := by
    rintro _ ⟨names, rfl⟩ ⟨names', h⟩
    cases h
  have h := ((forEvents_serves bs).append (forProperties_serves bs) happart).renumbered
  refine ⟨fun w hw => ?_, h.apart, fun i b k _ => h.served i b k ?_, h.members, h.increasing⟩
  · obtain ⟨k, -, hk⟩ := h.keyed w hw
    exact ⟨k, trivial, hk⟩
  · cases k with
    | event object name => exact Or.inl ⟨(object, name), rfl⟩
    | property object name => exact Or.inr ⟨(object, name), rfl⟩

theorem ofBindings_partition (bs : List Binding) : Partition bs (ofBindings bs) where
  toServes := ofBindings_serves bs
  numbered := by
    intro n w hw
    simp only [ofBindings, List.getElem?_map, List.getElem?_zipIdx, Option.map_map] at hw
    obtain ⟨v, -, rfl⟩ := Option.map_eq_some_iff.mp hw
    exact Nat.zero_add n
  events_first := by
    refine pairwise_renumbered ?_ fun _ _ _ _ hvw => hvw
    refine List.pairwise_append.mpr ⟨?_, ?_, fun v hv _ _ _ => isForEvents_of_mem_forEvents hv⟩
    · exact List.pairwise_of_forall_mem_list fun v hv _ _ _ => isForEvents_of_mem_forEvents hv
    · refine List.pairwise_of_forall_mem_list fun _ _ w hw hevents => ?_
      exact absurd (isForEvents_of_mem_forProperties hw) (by simp [hevents])
  placed := fun i b k hb hcall => (ofBindings_serves bs).existsUnique trivial hb hcall
  same_object := by
    intro w hw i hi
    obtain ⟨k, -, hk⟩ := (ofBindings_serves bs).keyed w hw
    obtain ⟨b, hb, hcall⟩ := ((ofBindings_serves bs).members w hw k hk i).mp hi
    refine ⟨b, hb, ?_⟩
    cases hcall with
    | event => exact hk.1.symm
    | property => exact hk.1.symm
  events := by
    intro w hw object name hk
    obtain ⟨v, hv, index, rfl⟩ := mem_renumbered hw
    have hvk : v.HasKey (.event object name) := hk
    rcases List.mem_append.mp hv with hv | hv
    · have hevents := events_of_mem_forEvents bs hv hvk
      exact hevents
    · have hproperty := isForEvents_of_mem_forProperties hv
      obtain ⟨-, es, hes, -⟩ := hvk
      simp [isForEvents, hes] at hproperty

end WriteBack
end DataBinding
