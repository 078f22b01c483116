import DataBinding.Proofs.Binding.Order
import DataBinding.Proofs.Binding.Scan
import Mathlib.Data.List.Infix

/-!
# The data type of a declaration

The data type is looked up before the arguments are read, as the text behind the last mention of its name.
Where that mention is the name of a segment, the binding has the data type that the last such segment
gives, and paths start from the type of the context if there is none. A mention may also stand in a literal
or a format, and a blank data type counts as none.
-/
namespace DataBinding
open Text

/-! ## Mentions -/

namespace Segment

/-- `DataType` and a single equals sign, perhaps with blanks between them, and the text behind them. -/
def Mention (cs tail : List Char) : Prop :=
  ∃ blanks, (∀ c ∈ blanks, isBlank c = true) ∧ cs = "DataType".toList ++ (blanks ++ '=' :: tail) ∧
    tail.head? ≠ some '='

def mention? (cs : List Char) : Option (List Char) := do
  let tail ← after? ['='] (trimStart (← after? "DataType".toList cs))
  if tail.head? = some '=' then none else some tail

theorem mention?_eq_some {cs tail : List Char} : mention? cs = some tail ↔ Mention cs tail := by
  simp only [mention?, Option.bind_eq_bind, Option.bind_eq_some_iff]
  constructor
  · rintro ⟨behind, hname, tail', hequals, h⟩
    split at h
    · cases h
    · rename_i hhead
      cases h
      refine ⟨behind.takeWhile isBlank, fun c hc => List.mem_takeWhile_imp hc, ?_, hhead⟩
      have htrim : trimStart behind = '=' :: tail := after?_eq_some hequals
      rw [after?_eq_some hname, ← htrim]
      exact congrArg _ List.takeWhile_append_dropWhile.symm
  · rintro ⟨blanks, hblanks, rfl, hhead⟩
    have htrim : trimStart (blanks ++ '=' :: tail) = ['='] ++ tail := by
      rw [trimStart_append hblanks]
      exact Sharp.trimStart (by intro c hc; cases hc; decide)
    exact ⟨_, after?_append _ _, tail, by rw [htrim, after?_append], if_neg hhead⟩

theorem lastDataType?_cons (c : Char) (cs : List Char) :
    lastDataType? (c :: cs) = (lastDataType? cs <|> mention? (c :: cs)) := rfl

theorem not_mention_nil (tail : List Char) : ¬ Mention [] tail := by
  rintro ⟨blanks, -, h, -⟩
  cases h

theorem lastDataType?_of_forall_not {cs : List Char} (h : ∀ m tail, m <:+ cs → ¬ Mention m tail) :
    lastDataType? cs = none := by
  induction cs with
  | nil => rfl
  | cons c cs ih =>
    have hfirst : mention? (c :: cs) = none :=
      Option.eq_none_iff_forall_ne_some.mpr fun tail htail =>
        h _ tail (List.suffix_refl _) (mention?_eq_some.mp htail)
    rw [lastDataType?_cons, hfirst, ih fun m tail hm => h m tail (hm.trans (List.suffix_cons c cs))]
    rfl

theorem lastDataType?_of_last {cs m tail : List Char} (hm : m <:+ cs) (hmention : Mention m tail)
    (hlast : ∀ m' tail', m' <:+ cs → Mention m' tail' → m <:+ m') : lastDataType? cs = some tail := by
  induction cs with
  | nil =>
    rw [List.eq_nil_of_suffix_nil hm] at hmention
    exact absurd hmention (not_mention_nil tail)
  | cons c cs ih =>
    rw [lastDataType?_cons]
    rcases List.suffix_cons_iff.mp hm with rfl | hm
    · have hnone : lastDataType? cs = none := by
        apply lastDataType?_of_forall_not
        intro m' tail' hm' hmention'
        have hlonger := (hlast m' tail' (hm'.trans (List.suffix_cons c cs)) hmention').length_le
        have hshorter := hm'.length_le
        simp only [List.length_cons] at hlonger
        omega
      rw [hnone, mention?_eq_some.mpr hmention]
      rfl
    · rw [ih hm fun m' tail' hm' => hlast m' tail' (hm'.trans (List.suffix_cons c cs))]
      rfl

theorem cutAt?_append_of_not_mem {mark : Char} {cs : List Char} (h : mark ∉ cs) (ds : List Char) :
    cutAt? mark (cs ++ ds) = (cutAt? mark ds).map fun (front, back) => (cs ++ front, back) := by
  induction cs with
  | nil => simp
  | cons c cs ih =>
    obtain ⟨hc, hcs⟩ := not_or.mp (mt List.mem_cons.mpr h)
    rw [List.cons_append, cutAt?, if_neg (Ne.symm hc), ih hcs, Option.map_map]
    rfl

/-- Blanks in front of a plain value do not count. -/
theorem plainValue_trimStart (i j : Nat) (cs : List Char) :
    (plainValue ⟨i, trimStart cs⟩).1 = (plainValue ⟨j, cs⟩).1 := by
  have hblanks : ∀ c ∈ cs.takeWhile isBlank, isBlank c = true := fun c hc => List.mem_takeWhile_imp hc
  have hcomma : ',' ∉ cs.takeWhile isBlank := fun h => absurd (hblanks ',' h) (by decide)
  have hcs : cs.takeWhile isBlank ++ trimStart cs = cs := List.takeWhile_append_dropWhile
  have hcut := cutAt?_append_of_not_mem hcomma (trimStart cs)
  rw [hcs] at hcut
  simp only [plainValue, hcut]
  cases cutAt? ',' (trimStart cs) with
  | none =>
    conv_rhs => rw [← hcs]
    simp only [Option.map_none, trim, trimStart_append hblanks]
  | some parts => simp only [Option.map_some, trim, trimStart_append hblanks]

end Segment

/-! ## Segments with the name of the data type -/

namespace Argument

variable {s : Setting} {pathKnown : Bool} {p next : Place}

theorem mention_of_read {name : String} (h : read s pathKnown p = .ok (.dataType name, next)) :
    ∃ tail, Segment.Mention p.rest tail ∧ name = String.ofList (Segment.plainValue ⟨0, tail⟩).1 := by
  obtain ⟨blanks, tail, hrest, hblanks, hequals, h⟩ := read_eq_readNamed (by simp [slot]) h
  have hread : readNamed s pathKnown "DataType".toList p (p.moveTo (trimStart tail)) =
      .ok (.dataType (String.ofList (Segment.plainValue (p.moveTo (trimStart tail))).1),
        (Segment.plainValue (p.moveTo (trimStart tail))).2) := rfl
  refine ⟨tail, ⟨blanks, hblanks, hrest, hequals⟩, ?_⟩
  cases hread.symm.trans h
  rw [Place.moveTo, Segment.plainValue_trimStart]

theorem slot_eq_dataType {a : Argument} (h : a.slot = "DataType") : ∃ name, a = .dataType name := by
  cases a with
  | dataType name => exact ⟨name, rfl⟩
  | expression role e start namespaces resource => cases role <;> exact absurd h (by simp [slot, Role.name])
  | _ => exact absurd h (by simp [slot])

/-- No mention of the data type stands behind the last segment that gives one: each is the name of such a
segment or stands in front of one. -/
def NamesDataType (text : List Char) (found : List (Place × Argument)) : Prop :=
  ∀ m tail, m <:+ text → Segment.Mention m tail → ∃ q name, (q, .dataType name) ∈ found ∧ q.rest <:+ m

variable {found : List (Place × Argument)}

/-- The last segment that gives a data type has the last mention for its name. -/
theorem exists_lastDataType? (hscan : Scan s pathKnown p found) (hnames : NamesDataType p.rest found)
    {name : String} (hlast : Prevails (found.map (·.2)) (.dataType name)) :
    ∃ tail, Segment.lastDataType? p.rest = some tail ∧
      name = String.ofList (Segment.plainValue ⟨0, tail⟩).1 := by
  obtain ⟨front, back, hmap, hback⟩ := hlast
  obtain ⟨before, behind, rfl, -, hbehind⟩ := List.map_eq_append_iff.mp hmap
  obtain ⟨⟨q, a⟩, after, rfl, rfl, rfl⟩ := List.map_eq_cons_iff.mp hbehind
  obtain ⟨hq, known, place, hread⟩ := hscan.mem (List.mem_append_right before List.mem_cons_self)
  obtain ⟨tail, hmention, hname⟩ := mention_of_read hread
  refine ⟨tail, Segment.lastDataType?_of_last hq hmention fun m tail' hm hmention' => ?_, hname⟩
  obtain ⟨q', other, hmem, hq'⟩ := hnames m tail' hm hmention'
  refine List.IsSuffix.trans ?_ hq'
  -- The other segment is in front of the last one, or it is the last one.
  rcases List.mem_append.mp hmem with hmem | hmem
  · exact (List.pairwise_append.mp hscan.pairwise).2.2 _ hmem _ List.mem_cons_self
  · rcases List.mem_cons.mp hmem with heq | hmem
    · obtain rfl : q' = q := congrArg Prod.fst heq
      exact List.suffix_refl _
    · exact absurd rfl (hback (.dataType other) (List.mem_map_of_mem hmem))

/-- What is looked up is the last data type that is read, unless it is blank. -/
theorem dataType?_of_prevails (hscan : Scan s pathKnown p found) (hnames : NamesDataType p.rest found)
    {name : String} (hlast : Prevails (found.map (·.2)) (.dataType name)) :
    Segment.dataType? p.rest = if name = "" then none else some name.toList := by
  obtain ⟨tail, htail, rfl⟩ := exists_lastDataType? hscan hnames hlast
  simp [Segment.dataType?, htail]

theorem dataType?_of_forall_not_mem (hnames : NamesDataType p.rest found)
    (hnone : ∀ name, .dataType name ∉ found.map (·.2)) : Segment.dataType? p.rest = none := by
  have hlast : Segment.lastDataType? p.rest = none := by
    apply Segment.lastDataType?_of_forall_not
    intro m tail hm hmention
    obtain ⟨q, name, hmem, -⟩ := hnames m tail hm hmention
    exact hnone name (List.mem_map_of_mem hmem)
  rw [Segment.dataType?, hlast]
  rfl

end Argument

/-! ## Bindings -/

namespace Binding

/-- The type that the paths of the binding start from. -/
def startType (c : Context) (b : Binding) : TypeRef :=
  if b.dataTypeSet then b.dataType.getD c.targetType else c.sourceType

/-- The binding has the last data type of the arguments, if it is not blank. -/
structure TypedBy (c : Context) (as : List Argument) (b : Binding) : Prop where
  set_iff : b.dataTypeSet = true ↔ ∃ name, Argument.Prevails as (.dataType name) ∧ name ≠ ""
  resolved : ∀ name, Argument.Prevails as (.dataType name) → name ≠ "" →
    b.dataType = c.registry.resolveType? b.site.namespaces name
  absent : (∀ name, .dataType name ∉ as) → b.startType c = c.sourceType

theorem sourceType_eq_ok {c : Context} {site : Site} {text : List Char}
    {found : Option TypeRef × Bool × TypeRef} (h : Declaration.sourceType c site text = .ok found) :
    found.2.1 = (Segment.dataType? text).isSome ∧
      found.1 = (Segment.dataType? text).bind
        (fun name => c.registry.resolveType? site.namespaces (String.ofList name)) ∧
      found.2.2 = if found.2.1 then found.1.getD c.targetType else c.sourceType := by
  unfold Declaration.sourceType at h
  split at h
  · rename_i name hname
    dsimp only at h
    split at h
    · rename_i type htype
      cases h
      simp [hname, htype]
    · rename_i htype
      split at h
      · cases h
      · cases h
        simp [hname, htype]
  · rename_i hname
    split at h
    · cases h
    · cases h
      simp [hname]

/-- A declaration is read from the type that its data type gives, and has that of its last segment with the
name unless the name is mentioned behind. -/
theorem ofSite_typedBy {c : Context} {site : Site} {number next : Nat} {b : Binding}
    (h : ofSite c site number = .ok (b, next)) :
    ∃ found, Argument.Scan ⟨c, site, b.startType c⟩ false ⟨0, trimEnd site.text.toList⟩ found ∧
      b.path = Declaration.expr? .path (found.map (·.2)) ∧
      (Argument.NamesDataType (trimEnd site.text.toList) found → b.TypedBy c (found.map (·.2))) := by
  obtain ⟨-, type, as, mode, value, htype, has, -, -, -, -, rfl⟩ :=
    Declaration.binding_eq_ok.mp (ofSite_eq_ok.mp h)
  obtain ⟨hset, hdata, hstart⟩ := sourceType_eq_ok htype
  obtain ⟨found, hscan, rfl⟩ := Argument.ofText_eq_ok.mp has
  rw [hstart] at hscan
  refine ⟨found, hscan, rfl, fun hnames => ?_⟩
  have hnone (habsent : ∀ name, .dataType name ∉ found.map (·.2)) :
      Segment.dataType? (trimEnd site.text.toList) = none :=
    Argument.dataType?_of_forall_not_mem (p := ⟨0, _⟩) hnames habsent
  have hlast {name : String} (hname : Argument.Prevails (found.map (·.2)) (.dataType name)) :=
    Argument.dataType?_of_prevails hscan hnames hname
  constructor
  · change type.2.1 = true ↔ _
    rw [hset]
    constructor
    · intro hsome
      by_cases hany : ∃ name, .dataType name ∈ found.map (·.2)
      · obtain ⟨name, hname⟩ := hany
        obtain ⟨a, ha, hslot⟩ := Argument.exists_prevails hname
        obtain ⟨last, rfl⟩ := Argument.slot_eq_dataType hslot
        refine ⟨last, ha, ?_⟩
        rintro rfl
        simp [hlast ha] at hsome
      · push Not at hany
        simp [hnone hany] at hsome
    · rintro ⟨name, hname, hne⟩
      simp [hlast hname, hne]
  · intro name hname hne
    simp [hdata, hlast hname, hne]
  · intro habsent
    have hunset : type.2.1 = false := by simp [hset, hnone habsent]
    simp [startType, hunset]

/-- A page with a title; its paths start from anything. -/
def anyContext : Context := { titleContext with sourceType := .object }

def pageSite : Site := { titleSite with text := "Title, FallbackValue='DataType=Other', DataType=Page" }

theorem page_mentions {m tail : List Char} (hm : m <:+ trimEnd pageSite.text.toList)
    (hmention : Segment.Mention m tail) :
    m = "DataType=Other', DataType=Page".toList ∨ m = "DataType=Page".toList := by
  have hall : ((trimEnd pageSite.text.toList).tails.filter fun m => (Segment.mention? m).isSome) =
      ["DataType=Other', DataType=Page".toList, "DataType=Page".toList] := by decide +kernel
  have hmem : m ∈ (trimEnd pageSite.text.toList).tails.filter fun m => (Segment.mention? m).isSome :=
    List.mem_filter.mpr ⟨(List.mem_tails m _).mpr hm, by simp [Segment.mention?_eq_some.mpr hmention]⟩
  simpa [hall] using hmem

/-- The mention in the literal does not matter in front of the segment. -/
theorem page_typed : ∃ b next found, ofSite anyContext pageSite 0 = .ok (b, next) ∧
    Argument.Scan ⟨anyContext, pageSite, .named "Page"⟩ false ⟨0, trimEnd pageSite.text.toList⟩ found ∧
    Argument.NamesDataType (trimEnd pageSite.text.toList) found ∧ b.TypedBy anyContext (found.map (·.2)) := by
  obtain ⟨⟨b, next⟩, hb, hpage⟩ := exists_ok
    (P := fun r => r.1.dataTypeSet && r.1.dataType == some (.named "Page"))
    (show (ofSite anyContext pageSite 0).toOption.any _ = true by decide +kernel)
  obtain ⟨found, hscan, -, htyped⟩ := ofSite_typedBy hb
  have hstart : b.startType anyContext = .named "Page" := by
    simp only [Bool.and_eq_true, beq_iff_eq] at hpage
    simp [startType, hpage]
  rw [hstart] at hscan
  have hnames : Argument.NamesDataType (trimEnd pageSite.text.toList) found := by
    obtain ⟨as, has, hany⟩ := exists_ok
      (P := fun as => as.any fun | .dataType name => name == "Page" | _ => false)
      (show (Argument.ofText ⟨anyContext, pageSite, .named "Page"⟩
        (trimEnd pageSite.text.toList)).toOption.any _ = true by decide +kernel)
    obtain rfl : found.map (·.2) = as :=
      Except.ok.inj ((Argument.ofText_eq_ok.mpr ⟨found, hscan, rfl⟩).symm.trans has)
    obtain ⟨a, ha, hname⟩ := List.any_eq_true.mp hany
    obtain ⟨⟨q, a'⟩, hq, rfl⟩ := List.mem_map.mp ha
    cases a' with
    | dataType name =>
      obtain rfl : name = "Page" := beq_iff_eq.mp hname
      obtain ⟨hsuffix, known, place, hread⟩ := hscan.mem hq
      obtain ⟨tail, hmention, hvalue⟩ := Argument.mention_of_read hread
      have hrest : q.rest = "DataType=Page".toList := by
        rcases page_mentions hsuffix hmention with hrest | hrest
        · rw [hrest, ← Segment.mention?_eq_some] at hmention
          obtain rfl : "Other', DataType=Page".toList = tail :=
            Option.some.inj ((show Segment.mention? "DataType=Other', DataType=Page".toList =
              some "Other', DataType=Page".toList by decide +kernel).symm.trans hmention)
          exact absurd hvalue (by decide +kernel)
        · exact hrest
      intro m tail' hm hmention'
      refine ⟨q, "Page", hq, ?_⟩
      rw [hrest]
      rcases page_mentions hm hmention' with rfl | rfl <;> decide +kernel
    | _ => cases hname
  exact ⟨b, next, found, hb, hscan, hnames, htyped hnames⟩

def blankSite : Site := { titleSite with text := "DataType= , Path=Title" }

def literalSite : Site := { titleSite with text := "Title, FallbackValue='DataType=Page'" }

/-- A blank data type counts as none, and one in a literal counts although no segment gives it. -/
theorem data_type_set_without_segment :
    (∃ b next as, ofSite titleContext blankSite 0 = .ok (b, next) ∧
      Argument.ofText ⟨titleContext, blankSite, b.startType titleContext⟩ (trimEnd blankSite.text.toList) =
        .ok as ∧
      .dataType "" ∈ as ∧ b.dataTypeSet = false) ∧
    ∃ b next as, ofSite titleContext literalSite 0 = .ok (b, next) ∧
      Argument.ofText ⟨titleContext, literalSite, b.startType titleContext⟩ (trimEnd literalSite.text.toList) =
        .ok as ∧
      (∀ name, .dataType name ∉ as) ∧ b.dataTypeSet = true := by
  constructor
  · obtain ⟨⟨b, next⟩, hb, hset⟩ := exists_ok (P := fun r => !r.1.dataTypeSet)
      (show (ofSite titleContext blankSite 0).toOption.any _ = true by decide +kernel)
    obtain ⟨as, has, hany⟩ := exists_ok
      (P := fun as => as.any fun | .dataType name => name == "" | _ => false)
      (show (Argument.ofText ⟨titleContext, blankSite, .named "Page"⟩
        (trimEnd blankSite.text.toList)).toOption.any _ = true by decide +kernel)
    have hunset : b.dataTypeSet = false := by simpa using hset
    have hstart : b.startType titleContext = .named "Page" := by simp [startType, hunset, titleContext]
    refine ⟨b, next, as, hb, by rw [hstart]; exact has, ?_, hunset⟩
    obtain ⟨a, ha, hname⟩ := List.any_eq_true.mp hany
    cases a with
    | dataType name =>
      obtain rfl : name = "" := beq_iff_eq.mp hname
      exact ha
    | _ => cases hname
  · obtain ⟨⟨b, next⟩, hb, hset⟩ := exists_ok (P := fun r => r.1.dataTypeSet && r.1.dataType.isNone)
      (show (ofSite titleContext literalSite 0).toOption.any _ = true by decide +kernel)
    obtain ⟨as, has, hall⟩ := exists_ok (P := fun as => as.all fun | .dataType _ => false | _ => true)
      (show (Argument.ofText ⟨titleContext, literalSite, .named "Page"⟩
        (trimEnd literalSite.text.toList)).toOption.any _ = true by decide +kernel)
    simp only [Bool.and_eq_true, Option.isNone_iff_eq_none] at hset
    have hstart : b.startType titleContext = .named "Page" := by simp [startType, hset, titleContext]
    refine ⟨b, next, as, hb, by rw [hstart]; exact has, fun name hname => ?_, hset.1⟩
    exact absurd (List.all_eq_true.mp hall _ hname) (by simp)

end Binding

end DataBinding
