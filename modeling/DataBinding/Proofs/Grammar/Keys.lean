import DataBinding.Proofs.Binding.Value
import DataBinding.Proofs.Expr.Keys
import DataBinding.Proofs.Grammar.Formed

/-!
# Keys of expressions that are read

Within one registry and with one root, the key of an expression that is read determines the expression up to
the markers of its accesses, if the names can be told apart. Then no type has the name of a path that starts
at the root or at a static member, and the names of literals are not used.
-/
namespace DataBinding.Grammar
open Piece Text

/-- What the words of an expression can mean. -/
structure Vocabulary where
  registry : Registry
  root : String
  type : TypeRef
  /-- Names of further types, which need not be registered. -/
  further : List String := []

def literals : List String := ["null", "true", "false"]

namespace Vocabulary

variable (v : Vocabulary)

def typeNames : List String :=
  v.registry.types.map (·.name) ++ WellKnown.abbreviations.map (·.2) ++ v.further

/-- The words can be told apart. -/
structure Unambiguous : Prop where
  path : ∀ name ∈ v.root :: v.typeNames, IsPath name
  literal : ∀ name ∈ v.root :: v.typeNames, ∀ word ∈ literals, ¬ Extends name word
  root : ∀ name ∈ v.typeNames, ¬ Extends name v.root
  static : ∀ type ∈ v.typeNames, ∀ d ∈ v.registry.lookupDefs (.named type), ∀ member ∈ d.staticNames,
    ∀ name ∈ v.root :: v.typeNames, ¬ Extends name (type ++ "." ++ member)
  layered : v.registry.Layered

/-- The expressions that words and numbers stand for. -/
inductive Word : Expr → Prop where
  | null : Word .null
  | bool (value : Bool) : Word (.constant (.bool value) .boolean)
  | number {text : String} (h : IsNumber text) : Word (.constant (.number text) (numberType text))
  | negative {text : String} (h : IsNumber text) : Word (.constant (.number ("-" ++ text)) (numberType text))
  | root : Word (.var v.root v.type)
  | type {name : String} (h : name ∈ v.typeNames) : Word (.typeRef (.named name))

/-- Static members stand on types and the others on values. -/
def rules : Rules where
  registry := v.registry
  leaf := v.Word
  member e m := IsIdentifier m.name ∧ v.registry.member? e.type m.name = some m ∧ m.isStatic = e.isTypeRef

section Words

variable {v} {e e' : Expr} {m : Member}

theorem Word.operands (h : v.Word e) : e.operands = [] := by
  cases h <;> rfl

theorem Word.pieces (h : v.Word e) : e.pieces = chars e.key.toList := by
  cases h <;> rfl

def ofKey (v : Vocabulary) (key : String) : Expr :=
  if key = "null" then .null
  else if key = "true" then .constant (.bool true) .boolean
  else if key = "false" then .constant (.bool false) .boolean
  else if key = v.root then .var v.root v.type
  else
    match key.toList with
    | '-' :: cs => .constant (.number key) (numberType (String.ofList cs))
    | c :: _ => if c.isDigit then .constant (.number key) (numberType key) else .typeRef (.named key)
    | [] => .typeRef (.named key)

variable (hv : v.Unambiguous)
include hv

theorem Word.opens (h : v.Word e) : Opens (chars e.key.toList) := by
  have hpath {name : String} (hname : IsPath name) : Opens (chars name.toList) := by
    obtain ⟨c, cs, hcs, hc, -⟩ := exists_cons_of_head hname.1
    rw [hcs]
    exact .name hc
  cases h with
  | null => exact .name (c := 'n') (by decide)
  | bool value => cases value <;> exact .name (by decide)
  | @number text h =>
    obtain ⟨c, cs, hcs, hc⟩ := exists_cons_of_head h.head
    change Opens (chars text.toList)
    rw [hcs]
    exact .name (isNameChar_of_isDigit hc)
  | @negative text h =>
    obtain ⟨c, cs, hcs, hc⟩ := exists_cons_of_head h.head
    change Opens (chars ("-" ++ text).toList)
    rw [String.toList_append, hcs]
    exact .minus hc
  | root => exact hpath (hv.path _ List.mem_cons_self)
  | type h => exact hpath (hv.path _ (List.mem_cons_of_mem _ h))

theorem Word.chars (h : v.Word e) : ∀ c ∈ e.key.toList, isNameChar c = true ∨ c = '.' ∨ c = '-' := by
  have hpath {name : String} (hname : IsPath name) :
      ∀ c ∈ name.toList, isNameChar c = true ∨ c = '.' ∨ c = '-' :=
    fun c hc => (hname.2 c hc).imp_right Or.inl
  cases h with
  | null => exact fun c hc => Or.inl ((show ∀ c ∈ "null".toList, isNameChar c = true by decide) c hc)
  | bool value =>
    cases value
    · exact fun c hc => Or.inl ((show ∀ c ∈ "false".toList, isNameChar c = true by decide) c hc)
    · exact fun c hc => Or.inl ((show ∀ c ∈ "true".toList, isNameChar c = true by decide) c hc)
  | number h => exact fun c hc => (h.chars c hc).imp_right Or.inl
  | @negative text h =>
    intro c hc
    change c ∈ ("-" ++ text).toList at hc
    rw [String.toList_append, List.mem_append] at hc
    rcases hc with hc | hc
    · exact Or.inr (Or.inr (by simpa using hc))
    · exact (h.chars c hc).imp_right Or.inl
  | root => exact hpath (hv.path _ List.mem_cons_self)
  | type h => exact hpath (hv.path _ (List.mem_cons_of_mem _ h))

theorem Word.eq_ofKey (h : v.Word e) : e = v.ofKey e.key := by
  have hliteral {name : String} (hname : name ∈ v.root :: v.typeNames) :
      name ≠ "null" ∧ name ≠ "true" ∧ name ≠ "false" :=
    ⟨fun h => hv.literal name hname "null" (by decide) (Or.inl h),
      fun h => hv.literal name hname "true" (by decide) (Or.inl h),
      fun h => hv.literal name hname "false" (by decide) (Or.inl h)⟩
  obtain ⟨r, rs, hroot, hr, hrdigit⟩ := exists_cons_of_head (hv.path v.root List.mem_cons_self).1
  cases h with
  | null => rfl
  | bool value => cases value <;> rfl
  | @number text h =>
    change _ = v.ofKey text
    obtain ⟨c, cs, hcs, hc⟩ := exists_cons_of_head h.head
    have hne {word : String} {d : Char} {ds : List Char} (hword : word.toList = d :: ds)
        (hd : d.isDigit = false) : text ≠ word := by
      rintro rfl
      rw [hcs] at hword
      simp [(List.cons.inj hword).1, hd] at hc
    have hminus : c ≠ '-' := by
      rintro rfl
      cases hc
    rw [ofKey, if_neg (hne (d := 'n') rfl rfl), if_neg (hne (d := 't') rfl rfl), if_neg (hne (d := 'f') rfl rfl),
      if_neg (hne hroot hrdigit), hcs]
    simp [hc]
  | @negative text h =>
    change _ = v.ofKey ("-" ++ text)
    have htext : ("-" ++ text).toList = '-' :: text.toList := by simp
    have hne {word : String} {d : Char} {ds : List Char} (hword : word.toList = d :: ds) (hd : d ≠ '-') :
        "-" ++ text ≠ word := by
      rintro rfl
      rw [htext] at hword
      exact hd (List.cons.inj hword).1.symm
    have hrminus : r ≠ '-' := by
      rintro rfl
      revert hr
      decide
    rw [ofKey, if_neg (hne (d := 'n') rfl (by decide)), if_neg (hne (d := 't') rfl (by decide)),
      if_neg (hne (d := 'f') rfl (by decide)), if_neg (hne hroot hrminus), htext]
    simp
  | root =>
    change _ = v.ofKey v.root
    obtain ⟨hnull, htrue, hfalse⟩ := hliteral List.mem_cons_self
    rw [ofKey, if_neg hnull, if_neg htrue, if_neg hfalse, if_pos rfl]
  | @type name h =>
    change _ = v.ofKey name
    have hname := List.mem_cons_of_mem v.root h
    obtain ⟨hnull, htrue, hfalse⟩ := hliteral hname
    obtain ⟨c, cs, hcs, hc, hdigit⟩ := exists_cons_of_head (hv.path name hname).1
    have hminus : c ≠ '-' := by
      rintro rfl
      revert hc
      decide
    rw [ofKey, if_neg hnull, if_neg htrue, if_neg hfalse, if_neg fun h' => hv.root name h (Or.inl h'), hcs]
    simp [hdigit]

/-- No name is the written form of an access to a member of a word, or goes on behind it. -/
theorem not_extends_access (he : v.Word e) (hm : v.rules.member e m) {name : String}
    (hname : name ∈ v.root :: v.typeNames) : ¬ Extends name (e.key ++ "." ++ m.name) := by
  intro h
  obtain ⟨c, cs, hcs, hc, hdigit⟩ := exists_cons_of_head (hv.path name hname).1
  have hhead {d : Char} (hd : e.key.toList.head? = some d) : d = c := by
    obtain ⟨ds, hds⟩ := List.head?_eq_some_iff.mp hd
    obtain ⟨rest, hrest⟩ := h.of_access.prefix
    rw [hcs, hds] at hrest
    exact (List.cons.inj hrest).1
  cases he with
  | null => exact hv.literal name hname "null" (by decide) h.of_access
  | bool value =>
    cases value
    · exact hv.literal name hname "false" (by decide) h.of_access
    · exact hv.literal name hname "true" (by decide) h.of_access
  | @number text htext =>
    obtain ⟨d, ds, hds, hd⟩ := exists_cons_of_head htext.head
    obtain rfl := hhead (d := d) (by change text.toList.head? = _; simp [hds])
    simp [hdigit] at hd
  | @negative text htext =>
    obtain rfl := hhead (d := '-') (by change ("-" ++ text).toList.head? = _; simp)
    revert hc
    decide
  | root =>
    rcases List.mem_cons.mp hname with rfl | hname
    · have hlength := h.prefix.length_le
      change (v.root ++ "." ++ m.name).toList.length ≤ v.root.toList.length at hlength
      rw [String.toList_append, String.toList_append, List.length_append, List.length_append] at hlength
      have hdot : ".".toList.length = 1 := rfl
      omega
    · exact hv.root name hname h.of_access
  | @type type htype =>
    obtain ⟨-, hmember, hstatic⟩ := hm
    obtain ⟨d, hd, hown⟩ := Registry.exists_declaring_of_member? hmember hstatic
    exact hv.static type htype d hd m.name (TypeDef.mem_staticNames hown hstatic) name hname h

theorem Word.apart (he : v.Word e) (hm : v.rules.member e m) (he' : v.Word e') :
    ¬ Extends e'.key (e.key ++ "." ++ m.name) := by
  intro h
  obtain ⟨d, ds, hds⟩ := List.exists_cons_of_ne_nil hm.1.ne_nil
  have hdigit : d.isDigit = false := hm.1.head d (by simp [hds])
  obtain ⟨rest, hrest⟩ := h.prefix
  rw [String.toList_append, String.toList_append, hds] at hrest
  have hpoint : e'.key.toList = e.key.toList ++ '.' :: (d :: (ds ++ rest)) := by simp [← hrest]
  have hmem : '.' ∈ e'.key.toList := by simp [hpoint]
  cases he' with
  | null => exact absurd hmem (show '.' ∉ "null".toList by decide)
  | bool value =>
    cases value
    · exact absurd hmem (show '.' ∉ "false".toList by decide)
    · exact absurd hmem (show '.' ∉ "true".toList by decide)
  | @number text htext =>
    obtain ⟨c, hc, hcdigit⟩ := htext.point _ _ hpoint
    obtain rfl := Option.some.inj hc
    simp [hdigit] at hcdigit
  | @negative text htext =>
    have hminus : '-' :: text.toList = e.key.toList ++ '.' :: (d :: (ds ++ rest)) := by
      rw [← hpoint]
      change _ = ("-" ++ text).toList
      simp
    cases hkey : e.key.toList with
    | nil =>
      rw [hkey] at hminus
      cases (List.cons.inj hminus).1
    | cons k ks =>
      rw [hkey] at hminus
      obtain ⟨c, hc, hcdigit⟩ := htext.point ks (d :: (ds ++ rest)) (List.cons.inj hminus).2
      obtain rfl := Option.some.inj hc
      simp [hdigit] at hcdigit
  | root => exact not_extends_access hv he hm List.mem_cons_self h
  | type hname => exact not_extends_access hv he hm (List.mem_cons_of_mem _ hname) h

theorem separated_rules : v.rules.Separated where
  leaf_operands h := Word.operands h
  leaf_pieces h := Word.pieces h
  leaf_opens h := Word.opens hv h
  leaf_chars h := Word.chars hv h
  leaf_inj h h' hkey := by rw [Word.eq_ofKey hv h, hkey, ← Word.eq_ofKey hv h']
  member_name h := h.1.toIsWord
  member_inj h h' he hname := by
    have hm := h.2.1
    rw [Expr.type_eq_of_unmarked he, hname, h'.2.1] at hm
    exact (Option.some.inj hm).symm
  apart he hm he' := Word.apart hv he hm he'

/-- The rules allow what is read from the root variable or from a type. -/
theorem covers_rules {s : Setting} (hregistry : s.registry = v.registry)
    (hroot : s.root = .var v.root v.type ∨ ∃ name ∈ v.typeNames, s.root = .typeRef (.named name)) :
    Covers v.rules s where
  registry := hregistry.symm
  paths := by
    rw [hregistry]
    intro d hd
    exact hv.path d.name (by simpa [typeNames] using Or.inr (Or.inl ⟨d, hd, rfl⟩))
  layered := hregistry ▸ hv.layered
  root := by
    rcases hroot with h | ⟨name, hname, h⟩
    · rw [h]
      exact .root
    · rw [h]
      exact .type hname
  root_digit := by
    rcases hroot with h | ⟨name, hname, h⟩
    · rw [h]
      exact digitLed_path (hv.path v.root List.mem_cons_self)
    · rw [h]
      exact digitLed_path (hv.path name (List.mem_cons_of_mem _ hname))
  root_number := by
    rcases hroot with h | ⟨name, -, h⟩ <;> rw [h] <;> rfl
  null := .null
  bool := .bool
  number := .number
  negative := .negative
  type h := by
    have hname := List.mem_append_left v.further (List.mem_append.mpr (hregistry ▸ h))
    exact ⟨hv.path _ (List.mem_cons_of_mem _ hname), .type hname⟩
  member hname h hstatic := ⟨hname, hregistry ▸ h, hstatic⟩

end Words

/-- The words of expressions with a given root, which stands for its type where it is static. -/
def ofRoot (r : Registry) (type root : String) (isStatic : Bool) : Vocabulary where
  registry := r
  root
  type := .named type
  further := if isStatic then [type] else []

theorem parseText_formed {r : Registry} {type root text : String} {isStatic whole : Bool}
    {expected : Option TypeRef} {namespaces : List MarkupNamespace} {p : Parsed} {v : Vocabulary}
    (hv : v.Unambiguous) (hregistry : r = v.registry) (hroot : root = v.root) (htype : .named type = v.type)
    (hstatic : isStatic = true → type ∈ v.typeNames)
    (h : parseText ⟨r, rootExpr (.named type) root isStatic, expected, namespaces⟩ text whole = .ok p) :
    p.expr.Formed v.rules := by
  refine parseBytes_formed ?_ (mapError_eq_ok h)
  refine covers_rules hv hregistry ?_
  cases isStatic with
  | false => exact Or.inl (by rw [← hroot, ← htype]; rfl)
  | true => exact Or.inr ⟨type, hstatic rfl, rfl⟩

end Vocabulary

/-- Nodes of expressions that are read have the same key exactly if they are the same up to markers. -/
theorem key_eq_iff_of_parseText {r : Registry} {type root : String} {isStatic isStatic' : Bool}
    (hnames : (Vocabulary.ofRoot r type root (isStatic || isStatic')).Unambiguous)
    {expected expected' : Option TypeRef} {namespaces namespaces' : List MarkupNamespace} {text text' : String}
    {whole whole' : Bool} {p p' : Parsed}
    (hp : parseText ⟨r, rootExpr (.named type) root isStatic, expected, namespaces⟩ text whole = .ok p)
    (hp' : parseText ⟨r, rootExpr (.named type) root isStatic', expected', namespaces'⟩ text' whole' = .ok p')
    {n n' : Expr} (hn : n ∈ p.expr.nodes) (hn' : n' ∈ p'.expr.nodes) :
    n.key = n'.key ↔ n.unmarked = n'.unmarked := by
  have hseparated := Vocabulary.separated_rules hnames
  have hformed := Vocabulary.parseText_formed hnames rfl rfl rfl
    (fun h => by simp [Vocabulary.ofRoot, Vocabulary.typeNames, h]) hp
  have hformed' := Vocabulary.parseText_formed hnames rfl rfl rfl
    (fun h => by simp [Vocabulary.ofRoot, Vocabulary.typeNames, h]) hp'
  constructor
  · exact Expr.unmarked_eq_of_key hseparated (hformed.of_mem_nodes hseparated hn)
      (hformed'.of_mem_nodes hseparated hn')
  · exact Expr.key_eq_of_unmarked

def pageRegistry : Registry where
  types := Registry.systemTypes ++ [{
    name := "App.Page"
    properties := [
      { name := "Item", type := .named "App.Page" },
      { name := "Name", type := .string },
      { name := "Count", type := .named WellKnown.int32, isStatic := true }] }]

/-- The static property is found with and without the name of its type. -/
theorem key_eq_iff_of_parseText_page :
    let setting : Setting := ⟨pageRegistry, rootExpr (.named "App.Page") "dataRoot" false, none, []⟩
    (Vocabulary.ofRoot pageRegistry "App.Page" "dataRoot" false).Unambiguous ∧
      ∃ p p', parseText setting "App.Page.Count + Item.Name" true = .ok p ∧
        parseText setting "Count + Item\\Name" true = .ok p' ∧
          p.expr.key = p'.expr.key ∧ p.expr.unmarked = p'.expr.unmarked := by
  have hnames : (Vocabulary.ofRoot pageRegistry "App.Page" "dataRoot" false).Unambiguous :=
    ⟨by decide +kernel, by decide +kernel, by decide +kernel, by decide +kernel,
      ⟨by decide +kernel, by decide +kernel⟩⟩
  obtain ⟨p, hp, hkey⟩ := exists_ok (x := parseText
    ⟨pageRegistry, rootExpr (.named "App.Page") "dataRoot" false, none, []⟩ "App.Page.Count + Item.Name" true)
    (P := fun p => p.expr.key == "(App.Page.Count + dataRoot.Item.Name)") (by decide +kernel)
  obtain ⟨p', hp', hkey'⟩ := exists_ok (x := parseText
    ⟨pageRegistry, rootExpr (.named "App.Page") "dataRoot" false, none, []⟩ "Count + Item\\Name" true)
    (P := fun p => p.expr.key == "(App.Page.Count + dataRoot.Item.Name)") (by decide +kernel)
  have hkeys : p.expr.key = p'.expr.key := (eq_of_beq hkey).trans (eq_of_beq hkey').symm
  have hiff := @key_eq_iff_of_parseText pageRegistry "App.Page" "dataRoot" false false hnames none none [] [] _ _ true true
    p p' hp hp' p.expr p'.expr (Expr.self_mem_nodes _) (Expr.self_mem_nodes _)
  exact ⟨hnames, p, p', hp, hp', hkeys, hiff.mp hkeys⟩

/-- The registered types and the root can be told apart, as far as types declare their members themselves. -/
def RegisteredApart (r : Registry) (root : String) : Prop :=
  (∀ name ∈ root :: r.types.map (·.name), IsPath name ∧ ∀ word ∈ literals, ¬ Extends name word) ∧
    ∀ name ∈ r.types.map (·.name), ¬ Extends name root ∧
      ∀ d ∈ r.types, ∀ member ∈ d.properties.map (·.name) ++ d.fields.map (·.name),
        ¬ Extends name (d.name ++ "." ++ member)

/-- Two texts read with one root. -/
structure TextPair where
  types : List TypeDef
  type : String
  root : String := "dataRoot"
  isStatic : Bool := false
  text : String
  text' : String

/-- The texts are read into expressions of different types with one key. -/
def TextPair.Confused (c : TextPair) : Prop :=
  let setting : Setting := ⟨⟨c.types⟩, rootExpr (.named c.type) c.root c.isStatic, none, []⟩
  ∃ p p', parseText setting c.text true = .ok p ∧ parseText setting c.text' true = .ok p' ∧
    p.expr.key = p'.expr.key ∧ p.expr.type ≠ p'.expr.type

/-- Keywords abbreviate types that are not registered; a class has an interface as its base type; the root
stands for a type that is not registered; a static property is inherited; the root has the name of a static
property. -/
def confusingPairs : List TextPair :=
  let static (type : TypeRef) : List PropertyDef := [{ name := "P", type, isStatic := true }]
  [{ types := [{ name := "Page", properties := [{ name := "Int32", type := .named "Page" }] }]
     type := "Page", root := "System", text := "int", text' := "Int32" },
   { types := [
       { name := "IA", kind := .interfaceType, properties := static .string },
       { name := "IZ", kind := .interfaceType, interfaces := [.named "IA"],
         properties := static (.named WellKnown.int32) },
       { name := "Page", base := some (.named "IZ") }]
     type := "Page", text := "P", text' := "IZ.P" },
   { types := [{ name := "A", properties := static .string }]
     type := "A.P", isStatic := true, text := "this", text' := "A.P" },
   { types := [
       { name := "A", properties := static .string }, { name := "B", base := some (.named "A") }, { name := "B.P" }]
     type := "A", text := "B\\P", text' := "B.P" },
   { types := [{ name := "A", properties := static .string }]
     type := "A", root := "A.P", text := "this", text' := "A.P" }]

/-- That registered types and the root can be told apart is not enough. -/
theorem confused_of_registeredApart :
    ∀ c ∈ confusingPairs, RegisteredApart ⟨c.types⟩ c.root ∧ c.Confused := by
  have hapart : ∀ c ∈ confusingPairs, RegisteredApart ⟨c.types⟩ c.root := by
    unfold RegisteredApart
    decide +kernel
  have hconfused : confusingPairs.all (fun c =>
      let setting : Setting := ⟨⟨c.types⟩, rootExpr (.named c.type) c.root c.isStatic, none, []⟩
      (parseText setting c.text true).toOption.any fun p =>
        (parseText setting c.text' true).toOption.any fun p' =>
          p.expr.key == p'.expr.key && p.expr.type != p'.expr.type) = true := by decide +kernel
  intro c hc
  refine ⟨hapart c hc, ?_⟩
  obtain ⟨p, hp, hpair⟩ := exists_ok (List.all_eq_true.mp hconfused c hc)
  obtain ⟨p', hp', hpair⟩ := exists_ok hpair
  obtain ⟨hkey, htype⟩ := Bool.and_eq_true_iff.mp hpair
  exact ⟨p, p', hp, hp', eq_of_beq hkey, bne_iff_ne.mp htype⟩

/-- So each of the pairs is confused, although its registered types and its root can be told apart. -/
theorem confusingPairs_forall :
    confusingPairs.Forall fun c => RegisteredApart ⟨c.types⟩ c.root ∧ c.Confused :=
  List.forall_iff_forall_mem.mpr confused_of_registeredApart

end DataBinding.Grammar
