import DataBinding.Proofs.Binding.Boundaries

/-!
# Places of faults in declarations

A fault that has a place marks a piece of the text. It is found in bytes and told in characters; as it
begins with a character and goes no further than the end, nothing is cut off there. The fault of an expression
in a declaration is the one that the text has from the expression on, moved by the characters in front.
-/
namespace DataBinding
open Text

namespace Text

theorem byteLength_le_of_sublist {cs ds : List Char} (h : cs.Sublist ds) : byteLength cs ≤ byteLength ds := by
  induction h with
  | slnil => exact Nat.le_refl _
  | cons c _ ih => exact Nat.le_trans ih (Nat.le_add_left _ _)
  | cons_cons c _ ih => exact Nat.add_le_add_left ih _

theorem trim_sublist (cs : List Char) : (trim cs).Sublist cs :=
  (List.rdropWhile_prefix isBlank _).sublist.trans (List.dropWhile_sublist isBlank)

theorem utf8ByteSize_ofList (cs : List Char) : (String.ofList cs).utf8ByteSize = byteLength cs := by
  induction cs with
  | nil => rfl
  | cons c cs ih =>
    rw [String.ofList_cons, String.utf8ByteSize_append, String.utf8ByteSize_singleton, ih]
    rfl

end Text

/-! ## Bytes and characters -/

namespace Fault

variable {text : List Char} {f : Fault}

/-- The fault, told in characters, marks a piece of the text. -/
def Marks (text : List Char) (f : Fault) : Prop :=
  ∃ (bytes : Fault) (position : Nat), bytes.Within text ∧ f = bytes.inCharacters text ∧
    f.position = some position ∧ position + f.length ≤ text.length

/-- The fault has no place, or its place is in the text. -/
def Fits (text : List Char) (f : Fault) : Prop := f.position = none ∨ f.Within text

theorem Within.marks (h : f.Within text) : (f.inCharacters text).Marks text := by
  obtain ⟨position, rest, hposition, -, -⟩ := id h
  have hmono := charsBefore_mono (Nat.le_add_right position f.length) text
  have hle := charsBefore_le_length (position + f.length) text
  refine ⟨f, charsBefore position text, h, rfl, ?_, ?_⟩
  · simp only [inCharacters, hposition]
  · simp only [inCharacters, hposition]
    omega

theorem Within.shift {rest : List Char} {offset : Nat} (h : f.Within rest)
    (hrest : fromByte? offset text = some rest) : (f.shift offset).Within text := by
  obtain ⟨position, ending, hposition, hending, hlength⟩ := h
  refine ⟨offset + position, ending, ?_, fromByte?_add hrest hending, hlength⟩
  simp [Fault.shift, hposition, Nat.add_comm]

/-- Bytes in front count as their characters. -/
theorem inCharacters_shift {front rest : List Char} {position : Nat} (h : f.position = some position) :
    (f.shift (byteLength front)).inCharacters (front ++ rest) = (f.inCharacters rest).shift front.length := by
  have hstart : charsBefore (position + byteLength front) (front ++ rest) =
      front.length + charsBefore position rest := by
    rw [Nat.add_comm, charsBefore_byteLength_append]
  have hstop : charsBefore (position + byteLength front + f.length) (front ++ rest) =
      front.length + charsBefore (position + f.length) rest := by
    rw [← charsBefore_byteLength_append]
    congr 1
    omega
  simp only [inCharacters, Fault.shift, h, Option.getD_some, hstart, hstop, Fault.mk.injEq, Option.some.injEq,
    true_and]
  omega

end Fault

/-! ## Faults of arguments -/

theorem exists_of_mapM_eq_error {ε α β : Type} {f : α → Except ε β} {xs : List α} {e : ε}
    (h : xs.mapM f = .error e) : ∃ x ∈ xs, f x = .error e := by
  induction xs with
  | nil => cases h
  | cons x xs ih =>
    rw [List.mapM_cons] at h
    rcases bind_eq_error h with hx | ⟨y, -, h⟩
    · exact ⟨x, List.mem_cons_self, hx⟩
    · rcases bind_eq_error h with hxs | ⟨ys, -, h⟩
      · obtain ⟨x', hmem, hx'⟩ := ih hxs
        exact ⟨x', List.mem_cons_of_mem x hmem, hx'⟩
      · cases h

variable {text : List Char} {p : Place} {fault : Fault}

theorem Place.Stands.fault_within (h : p.Stands text) {length : Nat} (hlength : length ≤ byteLength p.rest)
    (cause : Cause) : (p.fault cause length).Within text :=
  Fault.within_spanning h hlength

theorem Place.Stands.fault_one_within (h : p.Stands text) (hne : p.rest ≠ []) (cause : Cause) :
    (p.fault cause 1).Within text :=
  h.fault_within (byteLength_pos hne) cause

namespace Segment

theorem byteLength_plainValue_le (p : Place) : byteLength (plainValue p).1 ≤ byteLength p.rest := by
  apply byteLength_le_of_sublist
  unfold plainValue
  split
  · rename_i value rest hcut
    refine (trim_sublist value).trans ?_
    rw [cutAt?_eq_some hcut]
    exact List.sublist_append_left _ _
  · exact trim_sublist p.rest

theorem bareFormat_within (hp : p.Stands text) (h : bareFormat p = .error fault) : fault.Within text := by
  unfold bareFormat at h
  split at h
  · rename_i quoted hquoted
    split at h
    · cases h
    · cases h
      exact hp.fault_one_within (by rw [after?_eq_some hquoted]; simp) _
  · cases h

theorem formatValue_within (hp : p.Stands text) (h : formatValue p = .error fault) : fault.Within text := by
  rw [formatValue_eq] at h
  split at h
  · rename_i inner hinner
    exact bareFormat_within (hp.reaches (Place.reaches_moveTo (after?_suffix hinner))) h
  · exact bareFormat_within hp h

end Segment

namespace Argument

variable {s : Setting} {known : Bool}

theorem readExpr_within {role : Role} (hp : p.Stands text) (h : readExpr s role p = .error fault) :
    fault.Within text := by
  unfold readExpr at h
  split at h
  · split at h
    · cases h
    · cases h
      exact hp.fault_within (Nat.sub_le _ _) _
  · split at h
    · cases h
    · rename_i raised hraised
      cases h
      exact (Grammar.within_of_parseBytes hraised).shift hp

theorem readValue_within {role : Role} (hp : p.Stands text) (h : readValue s role p = .error fault) :
    fault.Within text := by
  rcases bind_eq_error h with h | ⟨⟨a, q⟩, hread, h⟩
  · exact readExpr_within hp h
  · dsimp only at h
    split at h
    · cases h
    · rename_i hrest
      cases h
      have hq := (hp.reaches (readExpr_reaches hread)).reaches (Place.reaches_skipBlanks q)
      exact hq.fault_one_within (by rintro hnil; simp [hnil] at hrest) _

theorem readNamed_within {name : List Char} {start : Place} (hstart : start.Stands text)
    (hname : byteLength name ≤ byteLength start.rest) (hp : p.Stands text)
    (h : readNamed s known name start p = .error fault) : fault.Within text := by
  have hplain (cause : Cause) : (p.fault cause (byteLength (Segment.plainValue p).1)).Within text :=
    hp.fault_within (Segment.byteLength_plainValue_le p) cause
  unfold readNamed at h
  split at h
  · split at h
    · cases h
      exact hstart.fault_within hname _
    · exact readValue_within hp h
  · exact readValue_within hp h
  · split at h
    · rcases bind_eq_error h with h | ⟨⟨value, next⟩, -, h⟩
      · exact Segment.formatValue_within hp h
      · cases h
    · unfold readMode at h
      dsimp only at h
      split at h
      · cases h
      · cases h
        exact hplain _
    · unfold readItemsSource at h
      dsimp only at h
      split at h
      · cases h
      · cases h
        exact hplain _
    · rcases bind_eq_error h with h | ⟨found, -, h⟩
      · obtain ⟨piece, -, hpiece⟩ := exists_of_mapM_eq_error h
        dsimp only at hpiece
        split at hpiece
        · cases hpiece
        · cases hpiece
          exact hplain _
      · cases h
    · cases h
    · cases h
      exact hstart.fault_within (by rwa [utf8ByteSize_ofList]) _

theorem read_within (hp : p.Stands text) (hne : p.rest ≠ []) (h : read s known p = .error fault) :
    fault.Within text := by
  unfold read at h
  split at h
  · rename_i name value hnamed
    refine readNamed_within hp ?_ (hp.reaches (Place.reaches_moveTo (Segment.named?_suffix hnamed))) h
    obtain ⟨blanks, tail, hrest, -⟩ := Segment.named?_eq_some hnamed
    rw [hrest]
    exact byteLength_le_of_sublist (List.sublist_append_left _ _)
  · split at h
    · cases h
      exact hp.fault_one_within hne _
    · exact readValue_within hp h

theorem ofText_within (h : ofText s text = .error fault) : fault.Within text := by
  rcases readAll_cases .start (Nat.le_refl _) with ⟨found, -, hok⟩ | ⟨known, q, raised, hq, hne, hread, hraised⟩
  · cases hok.symm.trans h
  · cases hraised.symm.trans h
    exact read_within (hq.stands.reaches (Place.reaches_skipBlanks q)) hne hread

/-! ## Places of expressions -/

def BeginsIn (text : List Char) : Argument → Prop
  | .expression _ _ start _ _ => ∃ rest, fromByte? start text = some rest
  | _ => True

variable {a : Argument} {next : Place}

theorem readValue_beginsIn {role : Role} (hp : p.Stands text) (h : readValue s role p = .ok (a, next)) :
    a.BeginsIn text := by
  obtain ⟨q, hread, -⟩ := readValue_reaches h
  obtain ⟨e, namespaces, resource, rfl⟩ := exists_expression_of_readExpr hread
  exact ⟨_, hp⟩

theorem readNamed_beginsIn {name : List Char} {start : Place} (hp : p.Stands text)
    (h : readNamed s known name start p = .ok (a, next)) : a.BeginsIn text := by
  rcases readNamed_cases h with ⟨role, -, hvalue⟩ | ⟨value, -, rfl, -⟩ | ⟨hname, hslot, -⟩
  · exact readValue_beginsIn hp hvalue
  · trivial
  · have hplain (role : Role) : role.name ∉ NamedValue.plainNames := by cases role <;> decide
    rw [← hslot] at hname
    cases a with
    | expression role e start namespaces resource => exact absurd hname (hplain role)
    | _ => trivial

theorem read_beginsIn (hp : p.Stands text) (h : read s known p = .ok (a, next)) : a.BeginsIn text := by
  unfold read at h
  split at h
  · rename_i name value hnamed
    exact readNamed_beginsIn (hp.reaches (Place.reaches_moveTo (Segment.named?_suffix hnamed))) h
  · split at h
    · cases h
    · exact readValue_beginsIn hp h

theorem Scan.beginsIn {found : List (Place × Argument)} (hscan : Scan s known p found) (hp : p.Stands text) :
    ∀ x ∈ found, x.2.BeginsIn text := by
  induction hscan with
  | done => simp
  | step hne hread _ ih =>
    have hq := hp.reaches (Place.reaches_skipBlanks _)
    exact List.forall_mem_cons.mpr ⟨read_beginsIn hq hread, ih (hq.reaches (read_reaches hne hread).1)⟩

end Argument

/-! ## Faults of declarations -/

namespace Declaration

variable {c : Context} {site : Site} {as : List Argument}

theorem sourceType_fits (h : sourceType c site text = .error fault) : fault.Fits text := by
  unfold sourceType at h
  dsimp only at h
  split at h
  · split at h
    · cases h
    · split at h <;> cases h
      exact .inl rfl
  · split at h <;> cases h
    exact .inl rfl

theorem mode_fits {default : BindingMode} (h : mode default as = .error fault) : fault.Fits text := by
  unfold mode at h
  split at h <;> cases h <;> exact .inl rfl

theorem checkSettable_fits {m : BindingMode} (has : ∀ a ∈ as, a.BeginsIn text)
    (h : checkSettable m (byteLength text) as = .error fault) : fault.Fits text := by
  unfold checkSettable at h
  dsimp only at h
  split at h
  · cases h
  · split at h
    · split at h <;> cases h
      exact .inl rfl
    · rename_i path start _ hpath
      split at h <;> cases h
      obtain ⟨a, ha, hplace⟩ := List.exists_of_findSome?_eq_some hpath
      have hbegins := has a (List.mem_reverse.mp ha)
      split at hplace
      · split at hplace <;> cases hplace
        obtain ⟨rest, hrest⟩ := hbegins
        have hsum := offset_add_byteLength hrest
        exact .inr (Fault.within_spanning hrest (by omega))
      · cases hplace
    · cases h
      exact .inl rfl

theorem checkItemsSource_fits (h : checkItemsSource as = .error fault) : fault.Fits text := by
  unfold checkItemsSource at h
  split at h <;> cases h
  exact .inl rfl

theorem converted_fits {e : Expr} (h : converted c site as e = .error fault) : fault.Fits text := by
  unfold converted at h
  split at h
  · cases h
  · split at h <;> cases h
    exact .inl rfl

theorem value_fits {number next : Nat} (h : (value c site as).run.run number = (.error fault, next)) :
    fault.Fits text := by
  unfold value at h
  split at h
  · cases h
  · rcases run_lift_bind_eq_error h with h | ⟨e, -, h⟩
    · exact converted_fits h
    · cases h

theorem binding_fits {number next : Nat} (h : (binding c site text).run.run number = (.error fault, next)) :
    fault.Fits text := by
  unfold binding at h
  split at h
  · cases h
    exact .inl rfl
  · rcases run_lift_bind_eq_error h with h | ⟨type, -, h⟩
    · exact sourceType_fits h
    rcases run_lift_bind_eq_error h with h | ⟨as, has, h⟩
    · exact .inr (Argument.ofText_within h)
    rcases run_lift_bind_eq_error h with h | ⟨m, -, h⟩
    · exact mode_fits h
    obtain ⟨found, hscan, rfl⟩ := Argument.ofText_eq_ok.mp has
    have hbegins := hscan.beginsIn (Place.stands_start text)
    rcases run_lift_bind_eq_error h with h | ⟨-, -, h⟩
    · exact checkSettable_fits (List.forall_mem_map.mpr hbegins) h
    rcases run_lift_bind_eq_error h with h | ⟨-, -, h⟩
    · exact checkItemsSource_fits h
    rw [Grammar.run_bind] at h
    cases hvalue : (value c site (found.map (·.2))).run.run number with
    | mk result k =>
      rw [hvalue] at h
      cases result with
      | error raised =>
        cases h
        exact value_fits hvalue
      | ok v => cases h

end Declaration

/-! ## Faults of expressions in declarations -/

namespace Argument

variable {s : Setting} {known : Bool}

/-- A place at which an argument with a role has an expression: behind its name, where no resource stands in
its stead, or at the front if it has no name. -/
inductive ExpressionAt (p : Place) : Bool → Role → Place → Prop where
  | named {known : Bool} {role : Role} {name value : List Char} (hnamed : Segment.named? p.rest = some (name, value))
    (hrole : Role.ofName? (String.ofList name) = some role) (hpath : known = true → role ≠ .path)
    (hresource : role.admitsResource = true → Segment.resource? value = none) :
    ExpressionAt p known role (p.moveTo value)
  | unnamed (hnone : Segment.named? p.rest = none) : ExpressionAt p false .path p

theorem ExpressionAt.reaches {role : Role} {v : Place} (h : ExpressionAt p known role v) : p.Reaches v := by
  cases h with
  | named hnamed => exact Place.reaches_moveTo (Segment.named?_suffix hnamed)
  | unnamed => exact .refl p

theorem ExpressionAt.read_eq {role : Role} {v : Place} (h : ExpressionAt p known role v)
    (hfault : Grammar.parseBytes s.grammar v.rest false = .error fault) :
    read s known p = .error (fault.shift v.offset) := by
  have hvalue (hresource : role.admitsResource = true → Segment.resource? v.rest = none) :
      readValue s role v = .error (fault.shift v.offset) := by
    have hexpr : readExpr s role v = .error (fault.shift v.offset) := by
      unfold readExpr
      have hnone : (if role.admitsResource then Segment.resource? v.rest else none) = none := by
        split
        · rename_i hadmits
          exact hresource hadmits
        · rfl
      rw [hnone]
      simp only [hfault]
    simp only [readValue, hexpr]
    rfl
  cases h with
  | named hnamed hrole hpath hresource =>
    have hread := hvalue hresource
    simp only [read, hnamed, readNamed, hrole]
    split
    · rename_i hrole'
      cases hrole'
      cases known with
      | false => exact hread
      | true => exact absurd rfl (hpath rfl)
    · rename_i hrole'
      cases hrole'
      exact hread
    · rename_i hrole'
      cases hrole'
  | unnamed hnone =>
    simp only [read, hnone, Bool.false_eq_true, if_false]
    exact hvalue fun hadmits => by cases hadmits

/-- What is read in the whole is what is read up to a head and from it on. -/
theorem Head.ofText_eq (hp : Head s text known p) : ∃ bound front, p.rest.length ≤ bound ∧
    ofText s text = (readAll s bound known p).map (front ++ ·) := by
  induction hp with
  | start =>
    refine ⟨text.length, [], Nat.le_refl _, ?_⟩
    cases h : readAll s text.length false ⟨0, text⟩ <;> simp [ofText, h, Except.map]
  | @next known p next a hp hne hread ih =>
    obtain ⟨bound, front, hbound, hall⟩ := ih
    have hlt := (read_reaches hne hread).2
    have hle := (Place.reaches_skipBlanks p).suffix.length_le
    obtain ⟨bound, rfl⟩ : ∃ k, bound = k + 1 := ⟨bound - 1, by omega⟩
    refine ⟨bound, front ++ [a], by omega, ?_⟩
    have hempty : p.skipBlanks.rest.isEmpty = false := by simpa using hne
    simp only [hall, readAll, hempty, hread, bind, Except.bind]
    cases readAll s bound (known || a.isPath) next with
    | error fault => rfl
    | ok as => simp [Except.map, pure, Except.pure]

theorem Head.ofText_eq_error (hp : Head s text known p) (hne : p.skipBlanks.rest ≠ [])
    (hread : read s known p.skipBlanks = .error fault) : ofText s text = .error fault := by
  obtain ⟨bound, front, hbound, hall⟩ := hp.ofText_eq
  have hle := (Place.reaches_skipBlanks p).suffix.length_le
  have hpos := List.length_pos_iff.mpr hne
  obtain ⟨bound, rfl⟩ : ∃ k, bound = k + 1 := ⟨bound - 1, by omega⟩
  have hempty : p.skipBlanks.rest.isEmpty = false := by simpa using hne
  simp only [hall, readAll, hempty, hread, bind, Except.bind]
  rfl

end Argument

theorem Grammar.parseText_marks {g : Grammar.Setting} {source : String} {whole : Bool}
    (h : Grammar.parseText g source whole = .error fault) : fault.Marks source.toList := by
  obtain ⟨bytes, hbytes, rfl⟩ := mapError_eq_error h
  exact (Grammar.within_of_parseBytes hbytes).marks

namespace Binding

variable {c : Context} {site : Site} {number : Nat}

theorem ofSite_eq_error (h : ofSite c site number = .error fault) : ∃ bytes next,
    (Declaration.binding c site (trimEnd site.text.toList)).run.run number = (.error bytes, next) ∧
      fault = bytes.inCharacters (trimEnd site.text.toList) := by
  unfold ofSite read at h
  dsimp only at h
  cases hrun : (Declaration.binding c site (trimEnd site.text.toList)).run.run number with
  | mk result next =>
    rw [hrun] at h
    cases result with
    | error bytes =>
      cases h
      exact ⟨bytes, next, rfl, rfl⟩
    | ok b => cases h

theorem ofSite_marks (h : ofSite c site number = .error fault) (hplace : fault.position ≠ none) :
    fault.Marks (trimEnd site.text.toList) := by
  obtain ⟨bytes, next, hrun, rfl⟩ := ofSite_eq_error h
  rcases Declaration.binding_fits hrun with hnone | hwithin
  · exact absurd (by simp [Fault.inCharacters, hnone]) hplace
  · exact hwithin.marks

/-- The fault that reading the arguments ends with is that of the declaration. -/
theorem ofSite_of_ofText {found : Option TypeRef × Bool × TypeRef} (hne : trimEnd site.text.toList ≠ [])
    (hsource : Declaration.sourceType c site (trimEnd site.text.toList) = .ok found)
    (h : Argument.ofText ⟨c, site, found.2.2⟩ (trimEnd site.text.toList) = .error fault) :
    ofSite c site number = .error (fault.inCharacters (trimEnd site.text.toList)) := by
  have hempty : (trimEnd site.text.toList).isEmpty = false := by simpa using hne
  have hrun : (Declaration.binding c site (trimEnd site.text.toList)).run.run number = (.error fault, number) := by
    unfold Declaration.binding
    rw [hempty, if_neg Bool.false_ne_true, Declaration.run_lift_bind, hsource]
    dsimp only
    rw [Declaration.run_lift_bind, h]
  unfold ofSite read
  dsimp only
  rw [hrun]
  rfl

/-- A fault with a place marks a piece of the text that is read, and that of an expression in a declaration
is the fault of the text from the expression on, moved by the characters in front. -/
theorem faults_marked (g : Grammar.Setting) (c : Context) (site : Site) (number : Nat) :
    (∀ source whole f, Grammar.parseText g source whole = .error f → f.Marks source.toList) ∧
    (∀ f, ofSite c site number = .error f → f.position ≠ none → f.Marks (trimEnd site.text.toList)) ∧
    ∀ found known p role v f, Declaration.sourceType c site (trimEnd site.text.toList) = .ok found →
      Argument.Head ⟨c, site, found.2.2⟩ (trimEnd site.text.toList) known p → p.skipBlanks.rest ≠ [] →
      Argument.ExpressionAt p.skipBlanks known role v →
      Grammar.parseText (Argument.Setting.grammar ⟨c, site, found.2.2⟩) (String.ofList v.rest) false = .error f →
      ∃ front position, trimEnd site.text.toList = front ++ v.rest ∧ byteLength front = v.offset ∧
        f.position = some position ∧
        ofSite c site number = .error { f with position := some (front.length + position) } := by
  refine ⟨fun _ _ _ h => Grammar.parseText_marks h, fun _ h => ofSite_marks h, ?_⟩
  intro found known p role v f hsource hp hne hv hf
  have hsegment := hp.stands.reaches (Place.reaches_skipBlanks p)
  have htextne : trimEnd site.text.toList ≠ [] :=
    fun hnil => hne (List.eq_nil_of_suffix_nil (hnil ▸ hsegment.suffix))
  obtain ⟨front, htext, hfront⟩ := fromByte?_eq_some.mp (hsegment.reaches hv.reaches)
  obtain ⟨-, position, -, -, hposition, -⟩ := Grammar.parseText_marks hf
  obtain ⟨bytes, hbytes, rfl⟩ := mapError_eq_error hf
  rw [String.toList_ofList] at hbytes hposition ⊢
  obtain ⟨place, -, hplace, -⟩ := Grammar.within_of_parseBytes hbytes
  refine ⟨front, position, htext, hfront, hposition, ?_⟩
  rw [ofSite_of_ofText htextne hsource (hp.ofText_eq_error hne (hv.read_eq hbytes)), ← hfront,
    htext, Fault.inCharacters_shift hplace]
  simp only [Fault.shift, hposition, Option.getD_some, Nat.add_comm position]

/-- A title behind a letter of two bytes, with a fallback that the page does not have. -/
def missingSite : Site := { titleSite with text := "'é' + Title, FallbackValue=Nope  " }

/-- The fallback begins behind 28 bytes and 27 characters. -/
theorem missing_marked : ∃ f,
    Grammar.parseText (Argument.Setting.grammar ⟨titleContext, missingSite, .named "Page"⟩) "Nope" false = .error f ∧
    f.position = some 0 ∧ f.length = 4 ∧
    ofSite titleContext missingSite 0 = .error { f with position := some 27 } ∧
    Fault.Marks "'é' + Title, FallbackValue=Nope".toList { f with position := some 27 } := by
  obtain ⟨hparse, hsite, hshift⟩ := faults_marked
    (Argument.Setting.grammar ⟨titleContext, missingSite, .named "Page"⟩) titleContext missingSite 0
  have htext : trimEnd missingSite.text.toList = "'é' + Title, FallbackValue=Nope".toList := by decide +kernel
  obtain ⟨f, hf, hplace⟩ := exists_error (P := fun f => f.position == some 0 && f.length == 4)
    (x := Grammar.parseText (Argument.Setting.grammar ⟨titleContext, missingSite, .named "Page"⟩) "Nope" false)
    (by decide +kernel)
  simp only [Bool.and_eq_true, beq_iff_eq] at hplace
  obtain ⟨⟨a, ⟨offset, rest⟩⟩, hread, hnext⟩ := exists_ok
    (P := fun r => r.1.isPath && r.2.offset == 13 && r.2.rest == " FallbackValue=Nope".toList)
    (x := Argument.read ⟨titleContext, missingSite, .named "Page"⟩ false
      (Place.skipBlanks ⟨0, trimEnd missingSite.text.toList⟩)) (by decide +kernel)
  simp only [Bool.and_eq_true, beq_iff_eq] at hnext
  obtain ⟨⟨hpath, rfl⟩, rfl⟩ := hnext
  have hhead := Argument.Head.start.next (by decide +kernel) hread
  have hvalue : Argument.ExpressionAt (Place.skipBlanks ⟨13, " FallbackValue=Nope".toList⟩) (false || a.isPath)
      .fallback ⟨28, "Nope".toList⟩ := by
    have hnamed : Segment.named? (Place.skipBlanks ⟨13, " FallbackValue=Nope".toList⟩).rest =
        some ("FallbackValue".toList, "Nope".toList) := by decide +kernel
    exact .named hnamed (by decide +kernel) (fun _ h => by cases h) (by decide +kernel)
  obtain ⟨front, position, hfront, -, hposition, hfault⟩ := hshift (none, false, .named "Page") _ _ _ _ f
    (by decide +kernel) hhead (by decide +kernel) hvalue hf
  obtain rfl : 0 = position := Option.some.inj (hplace.1.symm.trans hposition)
  have hlength : front.length = 27 := by
    have := congrArg List.length hfront
    rw [htext] at this
    simpa using this.symm
  rw [hlength] at hfault
  exact ⟨f, hf, hplace.1, hplace.2, hfault, htext ▸ hsite _ hfault (by simp)⟩

end Binding

end DataBinding
