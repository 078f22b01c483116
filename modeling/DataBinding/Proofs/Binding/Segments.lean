import DataBinding.Proofs.Binding.Value
import DataBinding.Proofs.Expr.Built
import DataBinding.Proofs.Grammar.Endings

/-!
# Segments wherever they stand

A segment with a name and a value that the name admits is read into the same argument wherever it stands
in a declaration. Only the place of an expression is part of the argument, for the sake of faults.
-/
namespace DataBinding
open Text

/-! ## Pieces of text -/

namespace Text

theorem after?_append (beginning cs : List Char) : after? beginning (beginning ++ cs) = some cs := by
  induction beginning with
  | nil => rfl
  | cons c beginning ih => simpa [after?] using ih

theorem cutAt?_append {mark : Char} {cs : List Char} (h : mark ∉ cs) (ds : List Char) :
    cutAt? mark (cs ++ mark :: ds) = some (cs, ds) := by
  induction cs with
  | nil => simp [cutAt?]
  | cons c cs ih =>
    have hc : c ≠ mark := fun hc => h (by simp [hc])
    simp [cutAt?, hc, ih fun hmem => h (by simp [hmem])]

theorem cutAt?_eq_none {mark : Char} {cs : List Char} (h : mark ∉ cs) : cutAt? mark cs = none := by
  induction cs with
  | nil => rfl
  | cons c cs ih =>
    have hc : c ≠ mark := fun hc => h (by simp [hc])
    simp [cutAt?, hc, ih fun hmem => h (by simp [hmem])]

theorem trimStart_append {blanks : List Char} (h : ∀ c ∈ blanks, isBlank c = true) (cs : List Char) :
    trimStart (blanks ++ cs) = trimStart cs := by
  have hnil : blanks.dropWhile isBlank = [] := List.dropWhile_eq_nil_iff.mpr h
  simp [trimStart, List.dropWhile_append, hnil]

theorem trimEnd_append {blanks : List Char} (h : ∀ c ∈ blanks, isBlank c = true) (cs : List Char) :
    trimEnd (cs ++ blanks) = trimEnd cs := by
  have hreverse : trimStart (blanks.reverse ++ cs.reverse) = trimStart cs.reverse :=
    trimStart_append (by simpa using h) _
  simp only [trimEnd, List.reverse_append]
  exact congrArg List.reverse hreverse

theorem trimEnd_append_of_ne_nil {cs : List Char} (h : trimEnd cs ≠ []) (ds : List Char) :
    trimEnd (ds ++ cs) = ds ++ trimEnd cs := by
  have hne : (cs.reverse.dropWhile isBlank).isEmpty = false := by simpa [trimEnd] using h
  simp [trimEnd, List.dropWhile_append, hne]

theorem trimEnd_cons {c : Char} (h : isBlank c = false) (cs : List Char) :
    trimEnd (c :: cs) = c :: trimEnd cs := by
  simp only [trimEnd, List.reverse_cons, List.dropWhile_append]
  split
  · rename_i hnil
    simp_all
  · simp

/-- A text with a character in front that is no blank. -/
def Sharp (cs : List Char) : Prop := ∀ c ∈ cs.head?, isBlank c = false

theorem Sharp.trimStart {cs : List Char} (h : Sharp cs) : trimStart cs = cs := by
  cases cs with
  | nil => rfl
  | cons c cs => simp [Text.trimStart, h c rfl]

theorem Sharp.append {cs : List Char} (h : Sharp cs) (hne : cs ≠ []) (ds : List Char) : Sharp (cs ++ ds) := by
  cases cs with
  | nil => exact absurd rfl hne
  | cons c cs => exact h

theorem sharp_of_name {cs : List Char} (h : ∀ c ∈ cs, isNameChar c = true) : Sharp cs := by
  intro c hc
  by_contra hblank
  have hbreaks : Lexer.Breaks [c] := by simp_all [Lexer.Breaks]
  have hname := (hbreaks.head rfl).1
  simp [h c (List.mem_of_mem_head? hc)] at hname

theorem trim_subset (cs : List Char) : trim cs ⊆ cs :=
  List.Subset.trans (List.rdropWhile_prefix isBlank _).subset (List.dropWhile_suffix isBlank).subset

theorem sharp_trim (cs : List Char) : Sharp (trim cs) := by
  intro c hc
  have hfront : ∀ d ∈ (trimStart cs).head?, isBlank d = false := by
    intro d hd
    have := List.head?_dropWhile_not isBlank cs
    rw [trimStart] at hd
    rw [hd] at this
    simpa using this
  apply hfront
  obtain ⟨tail, htail⟩ : trim cs <+: trimStart cs := List.rdropWhile_prefix _ _
  rw [← htail, List.head?_append, hc]
  rfl

end Text

namespace Grammar.Separates

variable {ending : List Char} (h : Grammar.Separates ending)
include h

theorem sharp : Sharp ending := by
  rcases h with rfl | ⟨rest, rfl⟩
  · simp [Sharp]
  · intro c hc
    cases hc
    decide

/-- Behind a value, blanks and one comma are passed. -/
theorem skip {p : Place} {blanks : List Char} (hp : p.rest = blanks ++ ending)
    (hblanks : ∀ c ∈ blanks, isBlank c = true) :
    p.skipBlanks.rest = ending ∧ p.skipBlanks.skipComma.rest = ending.drop 1 := by
  have hskip : p.skipBlanks.rest = ending := by
    rw [Place.skipBlanks, Place.moveTo, hp, trimStart_append hblanks, h.sharp.trimStart]
  refine ⟨hskip, ?_⟩
  rw [Place.skipComma, hskip]
  rcases h with rfl | ⟨rest, rfl⟩
  · exact hskip
  · rfl

end Grammar.Separates

/-! ## Names and values -/

/-- A name and the text of its value. -/
structure NamedValue where
  name : String
  value : String

namespace NamedValue

def core (a : NamedValue) : List Char := trim a.value.toList

/-- The names of values that end at the next comma. -/
def plainNames : List String := ["Mode", "UpdateSourceEventNames", "DataType", "IsItemsSource"]

def names : List String := Role.all.map Role.name ++ "StringFormat" :: plainNames

/-- The value is one that the name admits, if the texts of expressions are the given ones. -/
inductive Admissible (parses : String → Prop) : NamedValue → Prop where
  | expression (role : Role) (value : String) (h : parses value) : Admissible parses ⟨role.name, value⟩
  | resource (role : Role) (value : String) (name : List Char) (hrole : role.admitsResource = true)
    (hne : name ≠ []) (hname : ∀ c ∈ name, isNameChar c = true)
    (h : trim value.toList = "\x7bStaticResource ".toList ++ (name ++ ['\x7d'])) :
    Admissible parses ⟨role.name, value⟩
  | format (value : String) (text : List Char) (hquote : '\'' ∉ text)
    (h : trim value.toList = '\'' :: (text ++ ['\''])) : Admissible parses ⟨"StringFormat", value⟩
  | plain (name value : String) (hname : name ∈ plainNames) (hblank : trim value.toList ≠ [])
    (hcomma : ',' ∉ value.toList) (hequals : value.toList.head? ≠ some '=') :
    Admissible parses ⟨name, value⟩

theorem Admissible.name_mem {parses : String → Prop} {a : NamedValue} (ha : a.Admissible parses) :
    a.name ∈ names := by
  have hrole (role : Role) : role.name ∈ names :=
    List.mem_append_left _ (List.mem_map_of_mem (by cases role <;> decide))
  cases ha with
  | expression role value h => exact hrole role
  | resource role value name hadmits hne hname h => exact hrole role
  | format value text hquote h => exact List.mem_append_right _ List.mem_cons_self
  | plain name value hname hblank hcomma hequals =>
    exact List.mem_append_right _ (List.mem_cons_of_mem _ hname)

end NamedValue

namespace Segment

theorem named?_append {name front core rest : List Char} (hne : name ≠ [])
    (hname : ∀ c ∈ name, isNameChar c = true) (hfront : ∀ c ∈ front, isBlank c = true)
    (hcore : core ≠ []) (hsharp : Sharp core) (hequals : (front ++ core).head? ≠ some '=') :
    named? (name ++ '=' :: (front ++ (core ++ rest))) = some (name, core ++ rest) := by
  have hmark : isNameChar '=' = false := by decide
  have hblank : isBlank '=' = false := by decide
  have htake : (name ++ '=' :: (front ++ (core ++ rest))).takeWhile isNameChar = name := by
    rw [List.takeWhile_append_of_pos hname]
    simp [hmark]
  have hdrop : (name ++ '=' :: (front ++ (core ++ rest))).dropWhile isNameChar =
      '=' :: (front ++ (core ++ rest)) := by
    rw [List.dropWhile_append_of_pos hname]
    simp [hmark]
  have hvalue : trimStart (front ++ (core ++ rest)) = core ++ rest := by
    rw [trimStart_append hfront, (hsharp.append hcore rest).trimStart]
  have hhead : ((front ++ (core ++ rest)).head? == some '=') = false := by
    rw [← List.append_assoc, List.head?_append_of_ne_nil _ (by simp [hcore])]
    simpa using hequals
  have hequal : trimStart ('=' :: (front ++ (core ++ rest))) = ['='] ++ (front ++ (core ++ rest)) := by
    simp [trimStart, hblank]
  unfold named?
  simp only [htake, hdrop, hequal, after?_append, hvalue, hhead]
  simp [hne, hcore]

theorem resource?_append {name : List Char} (hne : name ≠ []) (hname : ∀ c ∈ name, isNameChar c = true)
    (rest : List Char) :
    resource? ("\x7bStaticResource ".toList ++ (name ++ ['\x7d']) ++ rest) = some (name, rest) := by
  have hmark : isNameChar '\x7d' = false := by decide
  have hinner : after? ['\x7b'] ("\x7bStaticResource ".toList ++ (name ++ ['\x7d']) ++ rest) =
      some ("StaticResource".toList ++ (' ' :: (name ++ '\x7d' :: rest))) := by
    simp [after?]
  have hword : trimStart ("StaticResource".toList ++ (' ' :: (name ++ '\x7d' :: rest))) =
      "StaticResource".toList ++ (' ' :: (name ++ '\x7d' :: rest)) :=
    Sharp.trimStart (by intro c hc; cases hc; decide)
  have hblank : trimStart (' ' :: (name ++ '\x7d' :: rest)) = name ++ '\x7d' :: rest := by
    rw [← List.singleton_append, trimStart_append (by decide)]
    exact ((sharp_of_name hname).append hne _).trimStart
  have htake : (name ++ '\x7d' :: rest).takeWhile isNameChar = name := by
    rw [List.takeWhile_append_of_pos hname]
    simp [hmark]
  have hdrop : (name ++ '\x7d' :: rest).dropWhile isNameChar = ['\x7d'] ++ rest := by
    rw [List.dropWhile_append_of_pos hname]
    simp [hmark]
  have hbrace : trimStart (['\x7d'] ++ rest) = ['\x7d'] ++ rest :=
    Sharp.trimStart (by intro c hc; cases hc; decide)
  have hspace : isBlank ' ' = true := by decide
  unfold resource?
  simp only [Option.bind_eq_bind, hinner, Option.bind_some, hword, after?_append, hblank, htake, hdrop,
    hbrace]
  simp [hspace, hne]

theorem resource?_eq_none {cs : List Char} (h : cs.head? ≠ some '\x7b') : resource? cs = none := by
  cases cs with
  | nil => rfl
  | cons c cs =>
    have hc : '\x7b' ≠ c := fun hc => h (by simp [hc.symm])
    simp [resource?, after?, hc]

theorem plainValue_append {p : Place} {front core back ending : List Char}
    (hp : p.rest = front ++ (core ++ (back ++ ending))) (hfront : ∀ c ∈ front, isBlank c = true)
    (hcore : core ≠ []) (hsharp : Sharp core) (hcomma : ',' ∉ core)
    (hback : ∀ c ∈ back, isBlank c = true) (hending : Grammar.Separates ending) :
    (plainValue p).1 = trimEnd core ∧ (plainValue p).2.rest = ending.drop 1 := by
  have hblank : isBlank ',' = false := by decide
  have hfree : ',' ∉ front ++ (core ++ back) := by
    rw [List.mem_append, List.mem_append]
    rintro (h | h | h)
    · simp [hfront _ h] at hblank
    · exact hcomma h
    · simp [hback _ h] at hblank
  have htrim : trim (front ++ (core ++ back)) = trimEnd core := by
    rw [trim, trimStart_append hfront, (hsharp.append hcore back).trimStart, trimEnd_append hback]
  have hrest : p.rest = front ++ (core ++ back) ++ ending := by simp [hp]
  unfold plainValue
  rw [hrest]
  rcases hending with rfl | ⟨rest, rfl⟩
  · rw [List.append_nil, cutAt?_eq_none hfree]
    exact ⟨htrim, rfl⟩
  · rw [cutAt?_append hfree]
    exact ⟨htrim, rfl⟩

theorem formatValue_append {p : Place} {text back ending : List Char}
    (hp : p.rest = '\'' :: (text ++ ['\'']) ++ (back ++ ending)) (hquote : '\'' ∉ text)
    (hback : ∀ c ∈ back, isBlank c = true) (hending : Grammar.Separates ending) :
    ∃ next, formatValue p = .ok (text, next) ∧ next.rest = ending.drop 1 := by
  have hrest : p.rest = ['\''] ++ (text ++ '\'' :: (back ++ ending)) := by simp [hp]
  have hbraces : after? ['\x7b', '\x7d'] p.rest = none := by simp [hrest, after?]
  have hopen : after? ['\''] p.rest = some (text ++ '\'' :: (back ++ ending)) := by
    rw [hrest, after?_append]
  have hclose : cutAt? '\'' (text ++ '\'' :: (back ++ ending)) = some (text, back ++ ending) :=
    cutAt?_append hquote _
  refine ⟨(p.moveTo (back ++ ending)).skipBlanks.skipComma, ?_, (hending.skip rfl hback).2⟩
  simp only [formatValue, hbraces, hopen, hclose]

end Segment

/-! ## Arguments -/

namespace Argument

/-- The argument with another position. -/
def placedAt (start : Nat) : Argument → Argument
  | .expression role e _ namespaces resource => .expression role e start namespaces resource
  | a => a

/-- The name under which the argument stands in a declaration. -/
def slot : Argument → String
  | .expression role _ _ _ _ => role.name
  | .format _ => "StringFormat"
  | .mode _ => "Mode"
  | .events _ => "UpdateSourceEventNames"
  | .dataType _ => "DataType"
  | .itemsSource _ => "IsItemsSource"

@[simp] theorem slot_placedAt (start : Nat) (a : Argument) : (a.placedAt start).slot = a.slot := by
  cases a <;> rfl

@[simp] theorem placedAt_placedAt (i j : Nat) (a : Argument) : (a.placedAt i).placedAt j = a.placedAt j := by
  cases a <;> rfl

@[simp] theorem isPath_placedAt (start : Nat) (a : Argument) : (a.placedAt start).isPath = a.isPath := by
  cases a with
  | expression role e i namespaces resource => cases role <;> rfl
  | _ => rfl

theorem slot_of_isPath {a : Argument} (h : a.isPath = true) : a.slot = "Path" := by
  cases a with
  | expression role e start namespaces resource => cases role <;> first | rfl | cases h
  | _ => cases h

/-- What reading comes to: an argument up to its position, and what is left behind a comma; or a fault. -/
def Gives (found : Option Argument) (rest : List Char) (x : Except Fault (Argument × Place)) : Prop :=
  match found with
  | some a => ∃ start next, x = .ok (a.placedAt start, next) ∧ next.rest = rest
  | none => ∃ fault, x = .error fault

variable {s : Setting} {pathKnown : Bool} {start p : Place} {core back ending : List Char}

@[simp] theorem ofName?_name (role : Role) : Role.ofName? role.name = some role := by
  cases role <;> rfl

theorem readNamed_role {role : Role} (h : pathKnown = true → role.name ≠ "Path") :
    readNamed s pathKnown role.name.toList start p = readValue s role p := by
  unfold readNamed
  simp only [String.ofList_toList, ofName?_name]
  cases role with
  | path => cases pathKnown <;> simp_all [Role.name]
  | _ => rfl

theorem gives_readValue {role : Role} {argument : Argument} {next : Place}
    (hread : readExpr s role p = .ok (argument, next)) {blanks : List Char}
    (hnext : next.rest = blanks ++ ending) (hblanks : ∀ c ∈ blanks, isBlank c = true)
    (hending : Grammar.Separates ending) :
    readValue s role p = .ok (argument, next.skipBlanks.skipComma) ∧
      next.skipBlanks.skipComma.rest = ending.drop 1 := by
  obtain ⟨hskip, hcomma⟩ := hending.skip hnext hblanks
  refine ⟨?_, hcomma⟩
  have hend : (next.skipBlanks.rest.isEmpty || next.skipBlanks.rest.head? == some ',') = true := by
    rw [hskip]
    rcases hending with rfl | ⟨rest, rfl⟩ <;> simp
  simp only [readValue, hread, bind, Except.bind, hend]
  rfl

theorem gives_expression {role : Role} {u : List Char} {parsed : Grammar.Parsed}
    (h : Grammar.parseBytes s.grammar u true = .ok parsed) (hu : trim u ≠ [])
    (hp : p.rest = trim u ++ (back ++ ending)) (hback : ∀ c ∈ back, isBlank c = true)
    (hending : Grammar.Separates ending) :
    Gives (some (.expression role parsed.expr 0 parsed.namespaces none)) (ending.drop 1)
      (readValue s role p) := by
  obtain ⟨c, tail, hc⟩ := List.exists_cons_of_ne_nil hu
  have hhead : c ≠ '\x7b' := by
    obtain ⟨rest, hrest⟩ : trim u <+: trimStart u := List.rdropWhile_prefix _ _
    rw [hc] at hrest
    exact (Grammar.head_ne_of_parseBytes h hrest.symm).1
  have hresource : (if role.admitsResource then Segment.resource? p.rest else none) = none := by
    rw [Segment.resource?_eq_none (by simp [hp, hc, hhead]), ite_self]
  have hparse : Grammar.parseBytes s.grammar p.rest false =
      .ok ⟨parsed.expr, parsed.namespaces, byteLength (trim u ++ back)⟩ := by
    rw [hp]
    simpa [byteLength, byteLength_append] using
      Grammar.parseBytes_framed h (List.forall_mem_nil _) hback hending
  have hdrop : dropBytes (byteLength (trim u ++ back)) p.rest = ending := by
    rw [hp, ← List.append_assoc, dropBytes_append]
  have hread : readExpr s role p =
      .ok (.expression role parsed.expr p.offset parsed.namespaces none, p.moveTo ending) := by
    simp only [readExpr, hresource, hparse, hdrop]
  obtain ⟨hvalue, hrest⟩ := gives_readValue hread (List.nil_append _).symm (List.forall_mem_nil _) hending
  exact ⟨p.offset, _, hvalue, hrest⟩

theorem gives_resource {role : Role} (hrole : role.admitsResource = true) {name : List Char}
    (hne : name ≠ []) (hname : ∀ c ∈ name, isNameChar c = true)
    (hp : p.rest = "\x7bStaticResource ".toList ++ (name ++ ['\x7d']) ++ (back ++ ending))
    (hback : ∀ c ∈ back, isBlank c = true) (hending : Grammar.Separates ending) :
    Gives ((s.resourceType? role).map fun type =>
        let resource : Resource := ⟨String.ofList name, type⟩
        .expression role (s.resourceExpr resource) 0 [] (some resource))
      (ending.drop 1) (readValue s role p) := by
  have hresource := Segment.resource?_append hne hname (back ++ ending)
  rw [← hp] at hresource
  cases htype : s.resourceType? role with
  | none =>
    have hread : readExpr s role p =
        .error (p.fault .noConverterType (byteLength p.rest - byteLength (back ++ ending))) := by
      simp only [readExpr, hrole, if_true, hresource, htype]
    exact ⟨_, by rw [readValue, hread]; rfl⟩
  | some type =>
    have hread : readExpr s role p = .ok (.expression role (s.resourceExpr ⟨String.ofList name, type⟩)
        p.offset [] (some ⟨String.ofList name, type⟩), p.moveTo (back ++ ending)) := by
      simp only [readExpr, hrole, if_true, hresource, htype]
    obtain ⟨hvalue, hrest⟩ := gives_readValue hread rfl hback hending
    exact ⟨p.offset, _, hvalue, hrest⟩

theorem readNamed_format : readNamed s pathKnown "StringFormat".toList start p =
    (Segment.formatValue p).map fun (text, next) => (.format (String.ofList text), next) := rfl

theorem slot_of_mem_map {α : Type} {x : Option α} {f : α → Argument} {name : String}
    (h : ∀ v, (f v).slot = name) : ∀ a ∈ x.map f, a.slot = name := by
  intro a ha
  obtain ⟨v, -, rfl⟩ := Option.map_eq_some_iff.mp ha
  exact h v

theorem gives_events {f : List Char → Except Fault Event} {g : List Char → Option Event}
    (hsome : ∀ piece event, g piece = some event → f piece = .ok event)
    (hnone : ∀ piece, g piece = none → ∃ fault, f piece = .error fault) (pieces : List (List Char))
    {next : Place} {rest : List Char} (hnext : next.rest = rest) :
    Gives ((pieces.mapM g).map .events) rest
      (pieces.mapM f >>= fun found => pure (.events found, next)) := by
  suffices h : match pieces.mapM g with
      | some found => pieces.mapM f = .ok found
      | none => ∃ fault, pieces.mapM f = .error fault by
    cases hg : pieces.mapM g with
    | none =>
      obtain ⟨fault, hfault⟩ := hg ▸ h
      exact ⟨fault, by rw [hfault]; rfl⟩
    | some found =>
      have hfound : pieces.mapM f = .ok found := by simpa only [hg] using h
      exact ⟨0, next, by rw [hfound]; rfl, hnext⟩
  induction pieces with
  | nil => exact rfl
  | cons piece pieces ih =>
    simp only [List.mapM_cons]
    cases hpiece : g piece with
    | none =>
      obtain ⟨fault, hfault⟩ := hnone piece hpiece
      exact ⟨fault, by rw [hfault]; rfl⟩
    | some event =>
      rw [hsome piece event hpiece]
      cases hpieces : pieces.mapM g with
      | none =>
        obtain ⟨fault, hfault⟩ := hpieces ▸ ih
        exact ⟨fault, by rw [hfault]; rfl⟩
      | some found =>
        have hfound : pieces.mapM f = .ok found := by simpa only [hpieces] using ih
        exact by rw [hfound]; rfl

theorem exists_gives_plain {name : String} (hname : name ∈ NamedValue.plainNames) (s : Setting)
    {core : List Char} (hcore : core ≠ []) (hsharp : Sharp core) (hcomma : ',' ∉ core) :
    ∃ found : Option Argument, (∀ a ∈ found, a.slot = name) ∧ ∀ pathKnown start p back ending,
      p.rest = core ++ (back ++ ending) → (∀ c ∈ back, isBlank c = true) → Grammar.Separates ending →
        Gives found (ending.drop 1) (readNamed s pathKnown name.toList start p) := by
  have hplain {p : Place} {back ending : List Char} (hp : p.rest = core ++ (back ++ ending)) :=
    Segment.plainValue_append (hp.trans (List.nil_append _).symm) (List.forall_mem_nil _) hcore hsharp hcomma
  simp only [NamedValue.plainNames, List.mem_cons, List.not_mem_nil, or_false] at hname
  rcases hname with rfl | rfl | rfl | rfl
  · refine ⟨(BindingMode.ofName? (String.ofList (trimEnd core))).map .mode, slot_of_mem_map fun _ => rfl, ?_⟩
    intro pathKnown start p back ending hp hback hending
    obtain ⟨hvalue, hrest⟩ := hplain hp hback hending
    change Gives _ _ (readMode pathKnown p)
    unfold readMode
    simp only [hvalue]
    cases BindingMode.ofName? (String.ofList (trimEnd core)) with
    | none => exact ⟨_, rfl⟩
    | some mode => exact ⟨0, _, rfl, hrest⟩
  · refine ⟨((splitAt '|' (trimEnd core)).mapM fun piece => s.context.registry.event? s.site.object.type
      (String.ofList (trim piece))).map .events, slot_of_mem_map fun _ => rfl, ?_⟩
    intro pathKnown start p back ending hp hback hending
    obtain ⟨hvalue, hrest⟩ := hplain hp hback hending
    change Gives _ _ (readEvents s p)
    unfold readEvents
    simp only [hvalue]
    refine gives_events (fun piece event h => ?_) (fun piece h => ?_) _ hrest
    · simp only [h]
    · exact ⟨_, by simp only [h]; rfl⟩
  · refine ⟨some (.dataType (String.ofList (trimEnd core))), by simp [slot], ?_⟩
    intro pathKnown start p back ending hp hback hending
    obtain ⟨hvalue, hrest⟩ := hplain hp hback hending
    rw [← hvalue]
    exact ⟨0, _, rfl, hrest⟩
  · refine ⟨(boolean? (trimEnd core)).map .itemsSource, slot_of_mem_map fun _ => rfl, ?_⟩
    intro pathKnown start p back ending hp hback hending
    obtain ⟨hvalue, hrest⟩ := hplain hp hback hending
    change Gives _ _ (readItemsSource p)
    unfold readItemsSource
    simp only [hvalue]
    cases boolean? (trimEnd core) with
    | none => exact ⟨_, rfl⟩
    | some value => exact ⟨0, _, rfl, hrest⟩

/-- Wherever a segment stands, reading it gives the argument, or a fault if there is none. -/
def ReadsAs (s : Setting) (a : NamedValue) (found : Option Argument) : Prop :=
  ∀ (pathKnown : Bool) (p : Place) (front back ending : List Char),
    p.rest = a.name.toList ++ '=' :: (front ++ (a.core ++ (back ++ ending))) →
    (∀ c ∈ front, isBlank c = true) → (front ++ a.core).head? ≠ some '=' →
    (∀ c ∈ back, isBlank c = true) → Grammar.Separates ending →
    (pathKnown = true → a.name ≠ "Path") →
    Gives found (ending.drop 1) (read s pathKnown p)

def Setting.Parses (s : Setting) (text : String) : Prop := ∃ p, Grammar.parseText s.grammar text true = .ok p

theorem core_ne_nil {a : NamedValue} (ha : a.Admissible s.Parses) : a.core ≠ [] := by
  cases ha with
  | expression role value h =>
    obtain ⟨parsed, h⟩ := h
    have hstart := Grammar.trimStart_ne_nil_of_parseBytes (Grammar.parseText_eq_ok.mp h)
    intro hcore
    have hall : ∀ c ∈ trimStart value.toList, isBlank c = true := List.rdropWhile_eq_nil_iff.mp hcore
    obtain ⟨c, tail, hc⟩ := List.exists_cons_of_ne_nil hstart
    have hfirst := List.head?_dropWhile_not isBlank value.toList
    rw [trimStart] at hc hall
    rw [hc] at hfirst hall
    simp [hall c (by simp)] at hfirst
  | resource role value name hrole hne hname h => simp [NamedValue.core, h]
  | format value text hquote h => simp [NamedValue.core, h]
  | plain name value hname hblank hcomma hequals => exact hblank

theorem name_isNameChar {parses : String → Prop} {a : NamedValue} (ha : a.Admissible parses) :
    a.name.toList ≠ [] ∧ ∀ c ∈ a.name.toList, isNameChar c = true := by
  have hall : NamedValue.names.all fun name =>
      !name.toList.isEmpty && name.toList.all isNameChar := by decide +kernel
  have hname := List.all_eq_true.mp hall a.name ha.name_mem
  simpa using hname

/-- A segment with a value that its name admits reads as one argument wherever it stands. -/
theorem exists_readsAs {a : NamedValue} (ha : a.Admissible s.Parses) :
    ∃ found, ReadsAs s a found ∧ ∀ argument ∈ found, argument.slot = a.name := by
  have hcore := core_ne_nil ha
  have hsharp : Sharp a.core := sharp_trim _
  obtain ⟨hne, hletters⟩ := name_isNameChar ha
  suffices h : ∃ found : Option Argument, (∀ argument ∈ found, argument.slot = a.name) ∧
      ∀ pathKnown start p back ending, p.rest = a.core ++ (back ++ ending) →
        (∀ c ∈ back, isBlank c = true) → Grammar.Separates ending → (pathKnown = true → a.name ≠ "Path") →
          Gives found (ending.drop 1) (readNamed s pathKnown a.name.toList start p) by
    obtain ⟨found, hslot, hread⟩ := h
    refine ⟨found, fun pathKnown p front back ending hp hfront hequals hback hending hpath => ?_, hslot⟩
    rw [read, hp, Segment.named?_append hne hletters hfront hcore hsharp hequals]
    exact hread pathKnown p _ back ending rfl hback hending hpath
  cases ha with
  | expression role value h =>
    obtain ⟨parsed, h⟩ := h
    refine ⟨some (.expression role parsed.expr 0 parsed.namespaces none), by simp [slot], ?_⟩
    intro pathKnown start p back ending hp hback hending hpath
    rw [readNamed_role hpath]
    exact gives_expression (Grammar.parseText_eq_ok.mp h) hcore hp hback hending
  | resource role value name hrole hne' hname h =>
    refine ⟨(s.resourceType? role).map fun type => .expression role
      (s.resourceExpr ⟨String.ofList name, type⟩) 0 [] (some ⟨String.ofList name, type⟩),
      slot_of_mem_map fun _ => rfl, ?_⟩
    intro pathKnown start p back ending hp hback hending hpath
    rw [NamedValue.core, h] at hp
    rw [readNamed_role hpath]
    exact gives_resource hrole hne' hname hp hback hending
  | format value text hquote h =>
    refine ⟨some (.format (String.ofList text)), by simp [slot], ?_⟩
    intro pathKnown start p back ending hp hback hending hpath
    rw [NamedValue.core, h] at hp
    obtain ⟨next, hformat, hrest⟩ := Segment.formatValue_append hp hquote hback hending
    rw [readNamed_format, hformat]
    exact ⟨0, next, rfl, hrest⟩
  | plain name value hname hblank hcomma hequals =>
    have hfree : ',' ∉ trim value.toList := fun h => hcomma (trim_subset _ h)
    obtain ⟨found, hslot, hread⟩ := exists_gives_plain hname s hcore hsharp hfree
    exact ⟨found, hslot, fun pathKnown start p back ending hp hback hending _ =>
      hread pathKnown start p back ending hp hback hending⟩

theorem head_ne_equals {a : NamedValue} (ha : a.Admissible s.Parses) :
    a.value.toList.head? ≠ some '=' := by
  have hcore := core_ne_nil ha
  obtain ⟨rest, hprefix⟩ : a.core <+: trimStart a.value.toList := List.rdropWhile_prefix _ _
  intro hhead
  have hstart : trimStart a.value.toList = a.value.toList :=
    Sharp.trimStart (by intro c hc; rw [hhead] at hc; cases hc; decide)
  have hfirst : a.core.head? = some '=' := by
    rw [← hhead, ← hstart, ← hprefix, List.head?_append_of_ne_nil _ hcore]
  cases ha with
  | expression role value h =>
    obtain ⟨parsed, h⟩ := h
    obtain ⟨c, tail, hc⟩ := List.exists_cons_of_ne_nil hcore
    rw [hc] at hfirst hprefix
    have hne := (Grammar.head_ne_of_parseBytes (Grammar.parseText_eq_ok.mp h) hprefix.symm).2
    simp_all
  | resource role value name hrole hne hname h => simp [NamedValue.core, h] at hfirst
  | format value text hquote h => simp [NamedValue.core, h] at hfirst
  | plain name value hname hblank hcomma hequals => exact hequals hhead

end Argument

/-! ## Declarations of segments -/

namespace NamedValue

def text (a : NamedValue) : String := a.name ++ "=" ++ a.value

def join (l : List NamedValue) : String := ", ".intercalate (l.map text)

/-- What stands behind a segment when others follow. -/
def following : List NamedValue → List Char
  | [] => []
  | l => ',' :: ' ' :: (join l).toList

theorem toList_join_cons (a : NamedValue) (l : List NamedValue) :
    (join (a :: l)).toList = a.name.toList ++ '=' :: (a.value.toList ++ following l) := by
  cases l with
  | nil => simp [join, text, following]
  | cons b l => simp [join, text, following, String.toList_intercalate]

theorem trimEnd_join_cons (a : NamedValue) (l : List NamedValue) :
    trimEnd (join (a :: l)).toList =
      a.name.toList ++ '=' :: trimEnd (a.value.toList ++ following l) := by
  have hcons : trimEnd ('=' :: (a.value.toList ++ following l)) =
      '=' :: trimEnd (a.value.toList ++ following l) := trimEnd_cons (by decide) _
  rw [toList_join_cons, trimEnd_append_of_ne_nil (by simp [hcons]), hcons]

theorem trimEnd_following_cons (a : NamedValue) (l : List NamedValue) :
    trimEnd (following (a :: l)) = ',' :: ' ' :: trimEnd (join (a :: l)).toList := by
  have hjoin : trimEnd ([' '] ++ (join (a :: l)).toList) = [' '] ++ trimEnd (join (a :: l)).toList :=
    trimEnd_append_of_ne_nil (by simp [trimEnd_join_cons]) _
  rw [following, trimEnd_cons (by decide)]
  · exact congrArg _ hjoin
  · simp

variable {s : Argument.Setting} {a : NamedValue} {l : List NamedValue}

theorem separates_following (l : List NamedValue) : Grammar.Separates (trimEnd (following l)) := by
  cases l with
  | nil => exact Or.inl rfl
  | cons a l => exact Or.inr ⟨_, trimEnd_following_cons a l⟩

theorem sharp_trimEnd_join (hl : ∀ a ∈ l, a.Admissible s.Parses) : Sharp (trimEnd (join l).toList) := by
  cases l with
  | nil => simp [join, trimEnd, Sharp]
  | cons a l =>
    obtain ⟨hne, hname⟩ := Argument.name_isNameChar (hl a List.mem_cons_self)
    rw [trimEnd_join_cons]
    exact (sharp_of_name hname).append hne _

theorem trimStart_drop_following (hl : ∀ a ∈ l, a.Admissible s.Parses) :
    trimStart ((trimEnd (following l)).drop 1) = trimEnd (join l).toList := by
  cases l with
  | nil => rfl
  | cons a l =>
    have hblank : trimStart ([' '] ++ trimEnd (join (a :: l)).toList) =
        trimStart (trimEnd (join (a :: l)).toList) := trimStart_append (by decide) _
    rw [trimEnd_following_cons]
    exact hblank.trans (sharp_trimEnd_join hl).trimStart

/-- The first segment of a declaration, and what follows it. -/
theorem exists_trimEnd_join_eq (hcore : a.core ≠ []) (hequals : a.value.toList.head? ≠ some '=')
    (l : List NamedValue) :
    ∃ front back, trimEnd (a.value.toList ++ following l) =
        front ++ (a.core ++ (back ++ trimEnd (following l))) ∧
      (∀ c ∈ front, isBlank c = true) ∧ (∀ c ∈ back, isBlank c = true) ∧
      (front ++ a.core).head? ≠ some '=' := by
  obtain ⟨front, back, hvalue, hfront, hback⟩ := Lexer.exists_trim_eq a.value.toList
  change a.value.toList = front ++ (a.core ++ back) at hvalue
  have hhead : (front ++ a.core).head? ≠ some '=' := by
    rw [hvalue, ← List.append_assoc, List.head?_append_of_ne_nil _ (by simpa using fun _ => hcore)]
      at hequals
    exact hequals
  cases l with
  | nil =>
    refine ⟨front, [], ?_, hfront, by simp, hhead⟩
    have htrim : trimEnd a.core = a.core := List.rdropWhile_idempotent _ _
    rw [following, List.append_nil, hvalue, ← List.append_assoc, trimEnd_append hback,
      trimEnd_append_of_ne_nil (by rw [htrim]; exact hcore), htrim]
    simp [trimEnd]
  | cons b l =>
    refine ⟨front, back, ?_, hfront, hback, hhead⟩
    rw [trimEnd_append_of_ne_nil (by simp [trimEnd_following_cons]), hvalue]
    simp

end NamedValue

namespace Argument

open NamedValue

variable {s : Setting} {found : NamedValue → Option Argument}

/-- Reading the segments of a declaration gives the arguments that they read as, up to their positions,
or a fault if one of them has none. -/
theorem readAll_join {l : List NamedValue} (hl : ∀ a ∈ l, a.Admissible s.Parses)
    (hnames : (l.map (·.name)).Nodup)
    (hfound : ∀ a ∈ l, ReadsAs s a (found a) ∧ ∀ argument ∈ found a, argument.slot = a.name)
    {bound : Nat} (hbound : l.length ≤ bound) {pathKnown : Bool}
    (hpath : pathKnown = true → ∀ a ∈ l, a.name ≠ "Path") {p : Place}
    (hp : p.skipBlanks.rest = trimEnd (join l).toList) :
    (∃ as, readAll s bound pathKnown p = .ok as ∧
      as.map (fun a => some (a.placedAt 0)) = l.map fun a => (found a).map (placedAt 0)) ∨
    (∃ fault, readAll s bound pathKnown p = .error fault) ∧ ∃ a ∈ l, found a = none := by
  induction l generalizing bound pathKnown p with
  | nil =>
    refine Or.inl ⟨[], ?_, rfl⟩
    cases bound with
    | zero => rfl
    | succ bound =>
      simp [readAll, hp, join, trimEnd]
      rfl
  | cons a l ih =>
    obtain ⟨bound, rfl⟩ : ∃ k, bound = k + 1 := ⟨bound - 1, by simp at hbound; omega⟩
    obtain ⟨ha, hl⟩ := List.forall_mem_cons.mp hl
    obtain ⟨⟨hreads, hslot⟩, hfound⟩ := List.forall_mem_cons.mp hfound
    rw [List.map_cons, List.nodup_cons] at hnames
    obtain ⟨front, back, htext, hfront, hback, hequals⟩ :=
      exists_trimEnd_join_eq (core_ne_nil ha) (head_ne_equals ha) l
    rw [trimEnd_join_cons, htext] at hp
    have hread := hreads pathKnown p.skipBlanks front back _ hp hfront hequals hback
      (separates_following l) fun h => hpath h a List.mem_cons_self
    have hne : p.skipBlanks.rest.isEmpty = false := by simp [hp]
    cases hx : found a with
    | none =>
      rw [hx] at hread
      obtain ⟨fault, hread⟩ := hread
      refine Or.inr ⟨⟨fault, ?_⟩, a, List.mem_cons_self, hx⟩
      simp [readAll, hne, hread, bind, Except.bind]
    | some x =>
      rw [hx] at hread
      obtain ⟨start, next, hread, hnext⟩ := hread
      have hknown : (pathKnown || (x.placedAt start).isPath) = true → ∀ b ∈ l, b.name ≠ "Path" := by
        intro h b hb hname
        rw [isPath_placedAt, Bool.or_eq_true] at h
        rcases h with h | h
        · exact hpath h b (List.mem_cons_of_mem a hb) hname
        · have hsame : a.name = b.name := by rw [hname, ← hslot x hx, slot_of_isPath h]
          exact hnames.1 (hsame ▸ List.mem_map_of_mem hb)
      have hstart : next.skipBlanks.rest = trimEnd (join l).toList := by
        rw [← trimStart_drop_following hl, ← hnext]
        rfl
      have hreadAll : readAll s (bound + 1) pathKnown p =
          (readAll s bound (pathKnown || (x.placedAt start).isPath) next).map (x.placedAt start :: ·) := by
        simp only [readAll, hne, hread, bind, Except.bind]
        rfl
      rw [hreadAll]
      have hbound : l.length ≤ bound := by simpa using hbound
      rcases ih hl hnames.2 hfound hbound hknown hstart with ⟨as, has, hmap⟩ | ⟨⟨fault, hfault⟩, b, hb, hnone⟩
      · exact Or.inl ⟨x.placedAt start :: as, by rw [has]; rfl, by simp [hmap, hx]⟩
      · exact Or.inr ⟨⟨fault, by rw [hfault]; rfl⟩, b, List.mem_cons_of_mem a hb, hnone⟩

end Argument

end DataBinding
