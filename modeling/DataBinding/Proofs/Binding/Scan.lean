import DataBinding.Proofs.Binding.Segments
import DataBinding.Proofs.Grammar.Progress

/-!
# Reading a declaration from front to back

Every argument takes a character at least, and what is left behind it is an ending of the declaration. So
reading gets to the end, and the arguments begin one behind the other.
-/
namespace DataBinding
open Text

/-! ## Endings of texts -/

namespace Text

theorem after?_suffix {beginning cs rest : List Char} (h : after? beginning cs = some rest) : rest <:+ cs :=
  ⟨beginning, (after?_eq_some h).symm⟩

theorem trimStart_suffix (cs : List Char) : trimStart cs <:+ cs := List.dropWhile_suffix isBlank

theorem dropBytes_suffix (n : Nat) (cs : List Char) : dropBytes n cs <:+ cs := by
  induction cs generalizing n with
  | nil => exact List.suffix_refl []
  | cons c cs ih =>
    unfold dropBytes
    split
    · exact List.suffix_refl _
    · exact (ih _).trans (List.suffix_cons c cs)

theorem length_dropBytes_lt {n : Nat} (hn : 0 < n) {cs : List Char} (hcs : cs ≠ []) :
    (dropBytes n cs).length < cs.length := by
  cases cs with
  | nil => exact absurd rfl hcs
  | cons c cs =>
    rw [dropBytes, if_neg (by omega)]
    exact Nat.lt_succ_of_le (dropBytes_suffix _ cs).length_le

theorem cutAt?_suffix {mark : Char} {cs front back : List Char} (h : cutAt? mark cs = some (front, back)) :
    back <:+ cs := by
  rw [cutAt?_eq_some h]
  exact (List.suffix_cons mark back).trans (List.suffix_append front _)

end Text

/-! ## Places further on -/

namespace Place

/-- The second place is as many bytes behind the first as the characters between the two take. -/
def Reaches (p q : Place) : Prop := ∃ bytes, fromByte? bytes p.rest = some q.rest ∧ q.offset = p.offset + bytes

variable {p q r : Place}

theorem Reaches.refl (p : Place) : p.Reaches p := ⟨0, fromByte?_zero p.rest, rfl⟩

theorem Reaches.trans (hq : p.Reaches q) (hr : q.Reaches r) : p.Reaches r := by
  obtain ⟨m, hm, hqoffset⟩ := hq
  obtain ⟨n, hn, hroffset⟩ := hr
  exact ⟨m + n, fromByte?_add hm hn, by omega⟩

theorem Reaches.suffix (h : p.Reaches q) : q.rest <:+ p.rest := by
  obtain ⟨bytes, hbytes, -⟩ := h
  obtain ⟨front, hfront, -⟩ := fromByte?_eq_some.mp hbytes
  exact ⟨front, hfront.symm⟩

theorem reaches_moveTo {ending : List Char} (h : ending <:+ p.rest) : p.Reaches (p.moveTo ending) := by
  have hbytes := fromByte?_of_suffix (fromByte?_zero p.rest) h
  rw [Nat.zero_add] at hbytes
  exact ⟨_, hbytes, rfl⟩

theorem reaches_skipBlanks (p : Place) : p.Reaches p.skipBlanks := reaches_moveTo (trimStart_suffix p.rest)

theorem reaches_skipComma (p : Place) : p.Reaches p.skipComma := by
  unfold skipComma
  split
  · rename_i rest hrest
    exact reaches_moveTo (after?_suffix hrest)
  · exact Reaches.refl p

end Place

/-! ## What segments leave -/

namespace Segment

variable {p : Place}

theorem plainValue_reaches (p : Place) : p.Reaches (plainValue p).2 := by
  unfold plainValue
  split
  · rename_i value rest hcut
    exact Place.reaches_moveTo (cutAt?_suffix hcut)
  · exact Place.reaches_moveTo List.nil_suffix

theorem cutFormat_suffix (depth : Nat) (escaped : Bool) (cs : List Char) :
    (cutFormat depth escaped cs).2 <:+ cs := by
  induction cs generalizing depth escaped with
  | nil => exact List.suffix_refl []
  | cons c cs ih =>
    unfold cutFormat
    split
    · exact (ih _ _).trans (List.suffix_cons c cs)
    · split
      · exact List.suffix_cons c cs
      · exact (ih _ _).trans (List.suffix_cons c cs)

theorem formatValue_reaches {text : List Char} {next : Place} (h : formatValue p = .ok (text, next)) :
    p.Reaches next := by
  unfold formatValue at h
  extract_lets q at h
  have hq : p.Reaches q := by
    dsimp only [q]
    split
    · rename_i rest hrest
      exact Place.reaches_moveTo (after?_suffix hrest)
    · exact .refl p
  refine hq.trans ?_
  split at h
  · rename_i quoted hquoted
    split at h
    · rename_i value rest hcut
      cases h
      have hquote : q.Reaches (q.moveTo rest) :=
        Place.reaches_moveTo ((cutAt?_suffix hcut).trans (after?_suffix hquoted))
      exact (hquote.trans (Place.reaches_skipBlanks _)).trans (Place.reaches_skipComma _)
    · cases h
  · cases h
    exact Place.reaches_moveTo (cutFormat_suffix 0 false q.rest)

theorem resource?_suffix {cs name rest : List Char} (h : resource? cs = some (name, rest)) : rest <:+ cs := by
  simp only [resource?, Option.bind_eq_bind, Option.bind_eq_some_iff] at h
  obtain ⟨inner, hbrace, word, hword, behind, hclose, h⟩ := h
  split at h
  · cases h
    have hname : rest <:+ trimStart word :=
      ((after?_suffix hclose).trans (trimStart_suffix _)).trans (List.dropWhile_suffix _)
    have hinner : word <:+ inner := (after?_suffix hword).trans (trimStart_suffix _)
    exact ((hname.trans (trimStart_suffix _)).trans hinner).trans (after?_suffix hbrace)
  · cases h

theorem named?_eq_some {cs name value : List Char} (h : named? cs = some (name, value)) :
    ∃ blanks tail, cs = name ++ (blanks ++ '=' :: tail) ∧ (∀ c ∈ blanks, isBlank c = true) ∧
      tail.head? ≠ some '=' ∧ value = trimStart tail ∧ name ≠ [] := by
  unfold named? at h
  dsimp only at h
  split at h
  · cases h
  · rename_i tail htail
    split at h
    · cases h
    · rename_i hparts
      cases h
      simp only [Bool.or_eq_true, List.isEmpty_iff, beq_iff_eq, not_or] at hparts
      obtain ⟨⟨hname, hequals⟩, -⟩ := hparts
      refine ⟨(cs.dropWhile isNameChar).takeWhile isBlank, tail, ?_, ?_, hequals, rfl, hname⟩
      · have hrest : (cs.dropWhile isNameChar).takeWhile isBlank ++ '=' :: tail =
            cs.dropWhile isNameChar := by
          rw [show '=' :: tail = trimStart (cs.dropWhile isNameChar) from (after?_eq_some htail).symm]
          exact List.takeWhile_append_dropWhile
        rw [hrest]
        exact List.takeWhile_append_dropWhile.symm
      · exact fun c hc => List.mem_takeWhile_imp hc

theorem named?_suffix {cs name value : List Char} (h : named? cs = some (name, value)) : value <:+ cs := by
  obtain ⟨blanks, tail, rfl, -, -, rfl, -⟩ := named?_eq_some h
  exact (trimStart_suffix tail).trans ⟨name ++ (blanks ++ ['=']), by simp⟩

end Segment

/-! ## What arguments leave -/

namespace Argument

variable {s : Setting} {pathKnown : Bool} {p next : Place} {argument : Argument}

theorem readExpr_reaches {role : Role} (h : readExpr s role p = .ok (argument, next)) : p.Reaches next := by
  unfold readExpr at h
  split at h
  · rename_i name rest hresource
    split at h
    · cases h
      split at hresource
      · exact Place.reaches_moveTo (Segment.resource?_suffix hresource)
      · cases hresource
    · cases h
  · split at h
    · cases h
      exact Place.reaches_moveTo (dropBytes_suffix _ _)
    · cases h

theorem exists_expression_of_readExpr {role : Role} (h : readExpr s role p = .ok (argument, next)) :
    ∃ e namespaces resource, argument = .expression role e p.offset namespaces resource := by
  unfold readExpr at h
  split at h
  · split at h <;> cases h
    exact ⟨_, _, _, rfl⟩
  · split at h <;> cases h
    exact ⟨_, _, _, rfl⟩

theorem readValue_reaches {role : Role} (h : readValue s role p = .ok (argument, next)) :
    ∃ q, readExpr s role p = .ok (argument, q) ∧ q.Reaches next := by
  obtain ⟨⟨a, q⟩, hread, h⟩ := bind_eq_ok h
  dsimp only at h
  split at h
  · cases h
    exact ⟨q, hread, (Place.reaches_skipBlanks q).trans (Place.reaches_skipComma _)⟩
  · cases h

/-- The argument under a name is an expression, a format or a value up to the next comma. -/
theorem readNamed_cases {name : List Char} {start : Place}
    (h : readNamed s pathKnown name start p = .ok (argument, next)) :
    (∃ role : Role, String.ofList name = role.name ∧ readValue s role p = .ok (argument, next)) ∨
    (∃ text, String.ofList name = "StringFormat" ∧ argument = .format (String.ofList text) ∧
      Segment.formatValue p = .ok (text, next)) ∨
    String.ofList name ∈ NamedValue.plainNames ∧ argument.slot = String.ofList name ∧
      next = (Segment.plainValue p).2 := by
  have hrole {role : Role} (h : Role.ofName? (String.ofList name) = some role) :
      String.ofList name = role.name := by
    have hfound := List.find?_some h
    exact (beq_iff_eq.mp hfound).symm
  unfold readNamed at h
  split at h
  · rename_i hname
    split at h
    · cases h
    · exact .inl ⟨.path, hrole hname, h⟩
  · rename_i role _ hname
    exact .inl ⟨role, hrole hname, h⟩
  · split at h
    · rename_i hname
      obtain ⟨⟨text, place⟩, hformat, h⟩ := bind_eq_ok h
      cases h
      exact .inr (.inl ⟨text, hname, rfl, hformat⟩)
    · rename_i hname
      unfold readMode at h
      dsimp only at h
      split at h <;> cases h
      exact .inr (.inr ⟨by rw [hname]; decide, hname.symm, rfl⟩)
    · rename_i hname
      unfold readItemsSource at h
      dsimp only at h
      split at h <;> cases h
      exact .inr (.inr ⟨by rw [hname]; decide, hname.symm, rfl⟩)
    · rename_i hname
      obtain ⟨found, -, h⟩ := bind_eq_ok h
      cases h
      exact .inr (.inr ⟨by rw [hname]; decide, hname.symm, rfl⟩)
    · rename_i hname
      cases h
      exact .inr (.inr ⟨by rw [hname]; decide, hname.symm, rfl⟩)
    · cases h

theorem readNamed_reaches {name : List Char} {start : Place}
    (h : readNamed s pathKnown name start p = .ok (argument, next)) : p.Reaches next := by
  rcases readNamed_cases h with ⟨role, -, hvalue⟩ | ⟨text, -, -, hformat⟩ | ⟨-, -, rfl⟩
  · obtain ⟨q, hread, hq⟩ := readValue_reaches hvalue
    exact (readExpr_reaches hread).trans hq
  · exact Segment.formatValue_reaches hformat
  · exact Segment.plainValue_reaches p

theorem read_reaches (hp : p.rest ≠ []) (h : read s pathKnown p = .ok (argument, next)) :
    p.Reaches next ∧ next.rest.length < p.rest.length := by
  unfold read at h
  split at h
  · rename_i name value hnamed
    have hvalue := readNamed_reaches h
    refine ⟨(Place.reaches_moveTo (Segment.named?_suffix hnamed)).trans hvalue, ?_⟩
    obtain ⟨blanks, tail, hrest, -, -, rfl, hname⟩ := Segment.named?_eq_some hnamed
    have htail : next.rest <:+ tail := hvalue.suffix.trans (trimStart_suffix tail)
    have hlength := htail.length_le
    rw [hrest]
    simp only [List.length_append, List.length_cons]
    omega
  · split at h
    · cases h
    · obtain ⟨q, hread, hq⟩ := readValue_reaches h
      refine ⟨(readExpr_reaches hread).trans hq, Nat.lt_of_le_of_lt hq.suffix.length_le ?_⟩
      simp only [readExpr, Role.admitsResource, Bool.false_eq_true, if_false] at hread
      split at hread
      · rename_i parsed hparsed
        cases hread
        exact length_dropBytes_lt (Grammar.stop_pos_of_parseBytes hparsed) hp
      · cases hread

/-! ## Scans -/

/-- The arguments from a place on up to the end, each with the place at which it begins. -/
inductive Scan (s : Setting) : Bool → Place → List (Place × Argument) → Prop where
  | done {pathKnown : Bool} {p : Place} (h : p.skipBlanks.rest = []) : Scan s pathKnown p []
  | step {pathKnown : Bool} {p next : Place} {argument : Argument} {found : List (Place × Argument)}
    (hne : p.skipBlanks.rest ≠ []) (hread : read s pathKnown p.skipBlanks = .ok (argument, next))
    (hrest : Scan s (pathKnown || argument.isPath) next found) :
    Scan s pathKnown p ((p.skipBlanks, argument) :: found)

theorem exists_scan {bound : Nat} {as : List Argument} (hbound : p.rest.length ≤ bound)
    (h : readAll s bound pathKnown p = .ok as) :
    ∃ found, Scan s pathKnown p found ∧ found.map (·.2) = as := by
  induction bound generalizing pathKnown p as with
  | zero =>
    cases h
    have hnil : p.rest = [] := List.eq_nil_of_length_eq_zero (Nat.le_zero.mp hbound)
    exact ⟨[], .done (List.eq_nil_of_suffix_nil (hnil ▸ p.reaches_skipBlanks.suffix)), rfl⟩
  | succ bound ih =>
    unfold readAll at h
    dsimp only at h
    split at h
    · rename_i hempty
      cases h
      exact ⟨[], .done (List.isEmpty_iff.mp hempty), rfl⟩
    · rename_i hempty
      have hne : p.skipBlanks.rest ≠ [] := by simpa using hempty
      obtain ⟨⟨a, next⟩, hread, h⟩ := bind_eq_ok h
      obtain ⟨rest, hrest, h⟩ := bind_eq_ok h
      cases h
      have hlt := (read_reaches hne hread).2
      have hle := p.reaches_skipBlanks.suffix.length_le
      have hleft : next.rest.length ≤ bound := by omega
      obtain ⟨found, hscan, hfound⟩ := ih hleft hrest
      exact ⟨_, .step hne hread hscan, by rw [List.map_cons, hfound]⟩

variable {found : List (Place × Argument)}

theorem Scan.readAll_eq (h : Scan s pathKnown p found) {bound : Nat} (hbound : p.rest.length ≤ bound) :
    readAll s bound pathKnown p = .ok (found.map (·.2)) := by
  induction h generalizing bound with
  | done hempty =>
    cases bound with
    | zero => rfl
    | succ bound =>
      simp only [readAll, hempty]
      rfl
  | @step pathKnown p next argument found hne hread _ ih =>
    have hlt := (read_reaches hne hread).2
    have hle := p.reaches_skipBlanks.suffix.length_le
    obtain ⟨bound, rfl⟩ : ∃ k, bound = k + 1 := ⟨bound - 1, by omega⟩
    have hempty : p.skipBlanks.rest.isEmpty = false := by simpa using hne
    simp only [readAll, hempty, hread, bind, Except.bind, ih (show next.rest.length ≤ bound by omega)]
    rfl

theorem ofText_eq_ok {text : List Char} {as : List Argument} :
    ofText s text = .ok as ↔ ∃ found, Scan s false ⟨0, text⟩ found ∧ found.map (·.2) = as := by
  constructor
  · exact exists_scan (Nat.le_refl _)
  · rintro ⟨found, hscan, rfl⟩
    exact hscan.readAll_eq (Nat.le_refl _)

/-- Every argument of a scan is read where it begins, and begins where an ending does. -/
theorem Scan.mem (h : Scan s pathKnown p found) {q : Place} {a : Argument} (hq : (q, a) ∈ found) :
    q.rest <:+ p.rest ∧ ∃ known next, read s known q = .ok (a, next) := by
  induction h with
  | done => cases hq
  | step hne hread _ ih =>
    rcases List.mem_cons.mp hq with heq | hq
    · cases heq
      exact ⟨(Place.reaches_skipBlanks _).suffix, _, _, hread⟩
    · obtain ⟨hsuffix, hread'⟩ := ih hq
      exact ⟨(hsuffix.trans (read_reaches hne hread).1.suffix).trans (Place.reaches_skipBlanks _).suffix, hread'⟩

theorem Scan.pairwise (h : Scan s pathKnown p found) :
    found.Pairwise fun x y => y.1.rest <:+ x.1.rest := by
  induction h with
  | done => exact List.Pairwise.nil
  | step hne hread hrest ih =>
    refine List.pairwise_cons.mpr ⟨fun y hy => ?_, ih⟩
    exact (hrest.mem hy).1.trans (read_reaches hne hread).1.suffix

/-! ## Arguments under one name -/

/-- The argument is the last one under its name. -/
def Prevails (as : List Argument) (a : Argument) : Prop :=
  ∃ front back, as = front ++ a :: back ∧ ∀ b ∈ back, b.slot ≠ a.slot

theorem exists_prevails {as : List Argument} {a : Argument} (ha : a ∈ as) :
    ∃ last, Prevails as last ∧ last.slot = a.slot := by
  induction as generalizing a with
  | nil => cases ha
  | cons first as ih =>
    by_cases hlater : ∃ b ∈ as, b.slot = a.slot
    · obtain ⟨b, hb, hslot⟩ := hlater
      obtain ⟨last, ⟨front, back, has, hback⟩, hlast⟩ := ih hb
      exact ⟨last, ⟨first :: front, back, by rw [has]; rfl, hback⟩, hlast.trans hslot⟩
    · push Not at hlater
      rcases List.mem_cons.mp ha with rfl | ha
      · exact ⟨a, ⟨[], as, rfl, hlater⟩, rfl⟩
      · exact absurd rfl (hlater a ha)

theorem readValue_slot {role : Role} (h : readValue s role p = .ok (argument, next)) :
    argument.slot = role.name := by
  obtain ⟨q, hread, -⟩ := readValue_reaches h
  obtain ⟨e, namespaces, resource, rfl⟩ := exists_expression_of_readExpr hread
  rfl

theorem readNamed_slot {name : List Char} {start : Place}
    (h : readNamed s pathKnown name start p = .ok (argument, next)) : argument.slot = String.ofList name := by
  rcases readNamed_cases h with ⟨role, hname, hvalue⟩ | ⟨text, hname, rfl, -⟩ | ⟨-, hslot, -⟩
  · rw [readValue_slot hvalue, hname]
  · exact hname.symm
  · exact hslot

/-- An argument that is no path is read behind its name, blanks and a single equals sign. -/
theorem read_eq_readNamed (hslot : argument.slot ≠ "Path") (h : read s pathKnown p = .ok (argument, next)) :
    ∃ blanks tail, p.rest = argument.slot.toList ++ (blanks ++ '=' :: tail) ∧
      (∀ c ∈ blanks, isBlank c = true) ∧ tail.head? ≠ some '=' ∧
      readNamed s pathKnown argument.slot.toList p (p.moveTo (trimStart tail)) = .ok (argument, next) := by
  unfold read at h
  split at h
  · rename_i name value hnamed
    obtain ⟨blanks, tail, hrest, hblanks, hequals, rfl, -⟩ := Segment.named?_eq_some hnamed
    obtain rfl : name = argument.slot.toList := by rw [readNamed_slot h, String.toList_ofList]
    exact ⟨blanks, tail, hrest, hblanks, hequals, h⟩
  · split at h
    · cases h
    · exact absurd (readValue_slot h) hslot

end Argument

end DataBinding
