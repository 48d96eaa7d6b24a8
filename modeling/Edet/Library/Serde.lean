import Mathlib.Tactic

/-!
# Values as JSON documents

A `Serde` writes values as JSON documents and reads them back, by the rules of derived serializers:
a record is an object of its fields (`struct`), a value of an enumeration is its variant's name, or
an object with that name for its one key (`enum`). Records are read with their fields in any order
and unknown ones passed over, or from an array of all of them. The grammar of the documents' text is
not here: a document is a tree, whose reals are of a type `R`.

Which values come back is a matter of the reals: one that a document cannot hold is written as
`null`, and no real is read from `null`. `CarriesIf b x` says what becomes of `x`: it is read back
where `b` holds, and refused where not. Every construction of a serializer has its rule for
`CarriesIf`, and the serializer of a type is followed by the one application of these rules that
its declaration has the shape of.
-/

namespace Edet

/-- A JSON document, with reals of a type. -/
inductive Json (R : Type)
  | null
  | bool (b : Bool)
  | int (n : Int)
  | real (x : R)
  | str (s : String)
  | arr (l : List (Json R))
  | obj (l : List (String × Json R))

namespace Json

variable {R : Type}

/-- The fields of a record, in the order of their names, each where it is there. A name that is there
twice is an error, and so is an array of another length. -/
def fields (names : List String) : Json R → Option (List (Option (Json R)))
  | obj l =>
    if names.all fun name => l.countP (fun e => decide (e.1 = name)) ≤ 1 then
      some (names.map fun name => l.lookup name)
    else none
  | arr l => if l.length = names.length then some (l.map some) else none
  | _ => none

/-- The variant of an enumeration, with its payload if it has one. -/
def variant : Json R → Option (String × Option (Json R))
  | str name => some (name, none)
  | obj [(name, payload)] => some (name, some payload)
  | _ => none

theorem lookup_zip {names : List String} {l : List (Json R)} (hnodup : names.Nodup)
    (hlen : l.length = names.length) :
    names.map (fun name => (names.zip l).lookup name) = l.map some := by
  induction names generalizing l with
  | nil =>
    obtain rfl := List.eq_nil_of_length_eq_zero hlen
    rfl
  | cons name names ih =>
    obtain ⟨hname, hnames⟩ := List.nodup_cons.1 hnodup
    cases l with
    | nil => cases hlen
    | cons j l =>
      have hrest : names.map (fun name' => ((name :: names).zip (j :: l)).lookup name') =
          names.map fun name' => (names.zip l).lookup name' := by
        refine List.map_congr_left fun name' hname' => ?_
        have hne : name' ≠ name := fun heq => hname (heq ▸ hname')
        rw [List.zip_cons_cons, List.lookup_cons, beq_false_of_ne hne]
      rw [List.map_cons, hrest, ih hnames (by simpa using hlen)]
      simp

/-- A record that was written has its fields. -/
theorem fields_obj {names : List String} {l : List (Json R)} (hnodup : names.Nodup)
    (hlen : l.length = names.length) : (obj (names.zip l)).fields names = some (l.map some) := by
  have honce : (names.all fun name =>
      decide ((names.zip l).countP (fun e => decide (e.1 = name)) ≤ 1)) = true := by
    refine List.all_eq_true.2 fun name _ => decide_eq_true ?_
    have hcount := List.countP_map (p := fun n => decide (n = name)) (f := Prod.fst) (l := names.zip l)
    rw [List.map_fst_zip hlen.ge] at hcount
    calc (names.zip l).countP (fun e => decide (e.1 = name))
        _ = names.countP fun n => decide (n = name) := hcount.symm
        _ = names.count name := List.countP_congr fun n _ => by simp
        _ ≤ 1 := List.nodup_iff_count_le_one.1 hnodup name
  rw [fields, if_pos honce, lookup_zip hnodup hlen]

end Json

/-- How values of a type are written as documents, and read. -/
structure Serde (R α : Type) where
  ser : α → Json R
  de : Json R → Option α

/-- How the fields of a record are written and read, in their order. -/
structure Fields (R α : Type) where
  names : List String
  put : α → List (Json R)
  get : List (Option (Json R)) → Option α

/-- One variant of an enumeration: the payload of a value that is of it, and the value of one. -/
structure Variant (R α : Type) where
  name : String
  put : α → Option (Option (Json R))
  get : Option (Json R) → Option α

namespace Serde

variable {R α β : Type}

/-- What becomes of a value: it is read back as it is, or else refused. -/
def CarriesIf (s : Serde R α) (b : Bool) (x : α) : Prop := s.de (s.ser x) = if b then some x else none

/-- A value is read back as it is. -/
abbrev Carries (s : Serde R α) (x : α) : Prop := s.CarriesIf true x

/-! ### Numbers and truth values -/

/-- A natural number of some bits. -/
def word (bits : Nat) : Serde R Nat where
  ser n := .int n
  de
    | .int n => if 0 ≤ n ∧ n < 2 ^ bits then some n.toNat else none
    | _ => none

theorem word_carries {bits n : Nat} (h : n < 2 ^ bits) : (word bits : Serde R Nat).Carries n := by
  have hrange : (0 : Int) ≤ n ∧ (n : Int) < 2 ^ bits := ⟨Int.natCast_nonneg n, by exact_mod_cast h⟩
  show (if (0 : Int) ≤ n ∧ (n : Int) < 2 ^ bits then some (n : Int).toNat else none) = some n
  rw [if_pos hrange, Int.toNat_natCast]

def bool : Serde R Bool where
  ser b := .bool b
  de
    | .bool b => some b
    | _ => none

theorem bool_carries (b : Bool) : (bool : Serde R Bool).Carries b := rfl

/-- A real: one that a document holds, or an integer. -/
def real (holds : R → Bool) (ofInt : Int → R) : Serde R R where
  ser x := if holds x then .real x else .null
  de
    | .real x => some x
    | .int n => some (ofInt n)
    | _ => none

theorem real_carriesIf {holds : R → Bool} {ofInt : Int → R} (x : R) :
    (real holds ofInt).CarriesIf (holds x) x := by
  show (real holds ofInt).de (if holds x then .real x else .null) = _
  cases holds x <;> rfl

/-! ### Another type's serializer -/

/-- The values of a type, written as those of another. -/
def via (s : Serde R α) (into : β → α) (back : α → Option β) : Serde R β where
  ser x := s.ser (into x)
  de j := s.de j >>= back

theorem via_carriesIf {s : Serde R α} {into : β → α} {back : α → Option β} {b b' : Bool} {x : β}
    (h : s.CarriesIf b (into x)) (hback : back (into x) = some x) (hb : b = b') :
    (s.via into back).CarriesIf b' x := by
  subst hb
  show s.de (s.ser (into x)) >>= back = _
  rw [h]
  cases b with
  | true => exact hback
  | false => rfl

/-! ### Sequences, options and pairs -/

def list (s : Serde R α) : Serde R (List α) where
  ser l := .arr (l.map s.ser)
  de
    | .arr l => l.mapM s.de
    | _ => none

theorem list_carriesIf {s : Serde R α} {p : α → Bool} {l : List α}
    (h : ∀ x ∈ l, s.CarriesIf (p x) x) : s.list.CarriesIf (l.all p) l := by
  show (l.map s.ser).mapM s.de = _
  induction l with
  | nil => rfl
  | cons x l ih =>
    have hx := h x (List.mem_cons_self ..)
    have hl := ih fun y hy => h y (List.mem_cons_of_mem _ hy)
    unfold CarriesIf at hx
    rw [List.map_cons, List.mapM_cons, hx, hl, List.all_cons]
    cases p x with
    | false => rfl
    | true => cases l.all p <;> rfl

theorem list_carries {s : Serde R α} {l : List α} (h : ∀ x ∈ l, s.Carries x) : s.list.Carries l := by
  have := list_carriesIf (p := fun _ => true) h
  rwa [List.all_eq_true.2 fun _ _ => rfl] at this

def option (s : Serde R α) : Serde R (Option α) where
  ser
    | none => .null
    | some x => s.ser x
  de
    | .null => some none
    | j => some <$> s.de j

/-- A value that is written as `null` would be read as none. -/
theorem option_carriesIf {s : Serde R α} {p : α → Bool} {o : Option α}
    (h : ∀ x ∈ o, s.CarriesIf (p x) x ∧ s.ser x ≠ .null) : s.option.CarriesIf (o.all p) o := by
  cases o with
  | none => rfl
  | some x =>
    obtain ⟨hx, hnull⟩ := h x rfl
    have hde : s.option.de (s.ser x) = some <$> s.de (s.ser x) := by
      unfold option
      cases hj : s.ser x with
      | null => exact absurd hj hnull
      | _ => rfl
    show s.option.de (s.ser x) = _
    rw [hde, hx, Option.all_some]
    cases p x <;> rfl

def pair (s : Serde R α) (t : Serde R β) : Serde R (α × β) where
  ser x := .arr [s.ser x.1, t.ser x.2]
  de
    | .arr [i, j] => do
      let a ← s.de i
      let b ← t.de j
      pure (a, b)
    | _ => none

theorem pair_carriesIf {s : Serde R α} {t : Serde R β} {b c : Bool} {x : α × β}
    (hx : s.CarriesIf b x.1) (hy : t.CarriesIf c x.2) : (s.pair t).CarriesIf (b && c) x := by
  show (do let a ← s.de (s.ser x.1); let b ← t.de (t.ser x.2); pure (a, b)) = _
  rw [hx, hy]
  cases b <;> cases c <;> rfl

end Serde

/-! ### Records -/

namespace Fields

variable {R α β : Type}

def nil : Fields R Unit where
  names := []
  put _ := []
  get
    | [] => some ()
    | _ :: _ => none

/-- One more field before the others. Where it is not there it is read as `absent`, if at all. -/
def cons (name : String) (s : Serde R α) (absent : Option α) (rest : Fields R β) :
    Fields R (α × β) where
  names := name :: rest.names
  put x := s.ser x.1 :: rest.put x.2
  get
    | [] => none
    | field :: fields => do
      let a ← field.elim absent s.de
      let b ← rest.get fields
      pure (a, b)

/-- A field that has to be there. -/
abbrev field (name : String) (s : Serde R α) (rest : Fields R β) : Fields R (α × β) :=
  cons name s none rest

/-- What becomes of a record's fields. -/
structure CarriesIf (f : Fields R α) (b : Bool) (x : α) : Prop where
  length : (f.put x).length = f.names.length
  get : f.get ((f.put x).map some) = if b then some x else none

theorem nil_carries : (nil : Fields R Unit).CarriesIf true () := ⟨rfl, rfl⟩

theorem CarriesIf.cons {name : String} {s : Serde R α} {rest : Fields R β} {absent : Option α}
    {b c : Bool} {x : α} {y : β} (hx : s.CarriesIf b x) (hy : rest.CarriesIf c y) :
    (cons name s absent rest).CarriesIf (b && c) (x, y) := by
  refine ⟨congrArg (· + 1) hy.length, ?_⟩
  show (do let a ← s.de (s.ser x); let b ← rest.get ((rest.put y).map some); pure (a, b)) = _
  rw [hx, hy.get]
  cases b <;> cases c <;> rfl

end Fields

namespace Serde

variable {R α β : Type}

/-- A record. -/
def struct (f : Fields R α) : Serde R α where
  ser x := .obj (f.names.zip (f.put x))
  de j := j.fields f.names >>= f.get

theorem struct_carriesIf {f : Fields R α} {b : Bool} {x : α} (h : f.CarriesIf b x)
    (hnodup : decide f.names.Nodup = true) : (struct f).CarriesIf b x := by
  show (Json.obj (f.names.zip (f.put x))).fields f.names >>= f.get = _
  rw [Json.fields_obj (of_decide_eq_true hnodup) h.length]
  exact h.get

/-! ### Enumerations -/

/-- A value of an enumeration, under the name of the first variant it is of. -/
def enum (vs : List (Variant R α)) : Serde R α where
  ser x :=
    (vs.findSome? fun v => (v.put x).map fun payload =>
      payload.elim (.str v.name) fun j => .obj [(v.name, j)]).getD .null
  de j := do
    let (name, payload) ← j.variant
    let v ← vs.find? fun v => decide (v.name = name)
    v.get payload

end Serde

namespace Variant

variable {R α β : Type}

/-- A variant without a payload. -/
def unit (name : String) (is : α → Bool) (x : α) : Variant R α where
  name := name
  put y := if is y then some none else none
  get
    | none | some .null => some x
    | some _ => none

/-- A variant with a payload. -/
def of (name : String) (s : Serde R β) (proj : α → Option β) (inj : β → α) : Variant R α where
  name := name
  put x := (proj x).map fun y => some (s.ser y)
  get
    | some j => inj <$> s.de j
    | none => none

end Variant

namespace Serde

variable {R α β : Type}

/-- A value of the variant at a place, if it is of none before, goes with its payload. -/
theorem enum_carriesIf {vs : List (Variant R α)} (i : Nat) {name : String} {s : Serde R β}
    {proj : α → Option β} {inj : β → α} {x : α} {y : β} {b b' : Bool}
    (hi : vs[i]? = some (.of name s proj inj))
    (hbefore : ((vs.take i).all fun v => (v.put x).isNone && decide (v.name ≠ name)) = true)
    (hproj : proj x = some y) (hinj : inj y = x) (h : s.CarriesIf b y) (hb : b = b') :
    (enum vs).CarriesIf b' x := by
  subst hb
  obtain ⟨hlt, hget⟩ := List.getElem?_eq_some_iff.1 hi
  have hsplit : vs = vs.take i ++ .of name s proj inj :: vs.drop (i + 1) := by
    rw [← hget, List.getElem_cons_drop, List.take_append_drop]
  have hnone : (vs.take i).findSome? (fun v => (v.put x).map fun payload =>
      payload.elim (Json.str v.name) fun j => .obj [(v.name, j)]) = none := by
    refine List.findSome?_eq_none_iff.2 fun v hv => ?_
    have hv' := List.all_eq_true.1 hbefore v hv
    rw [Bool.and_eq_true] at hv'
    rw [Option.isNone_iff_eq_none.1 hv'.1]
    rfl
  have hfind : (vs.take i).find? (fun v => decide (v.name = name)) = none := by
    refine List.find?_eq_none.2 fun v hv => ?_
    have hv' := List.all_eq_true.1 hbefore v hv
    rw [Bool.and_eq_true] at hv'
    simpa using hv'.2
  have hser : (enum vs).ser x = .obj [(name, s.ser y)] := by
    show (vs.findSome? _).getD Json.null = _
    rw [hsplit, List.findSome?_append, hnone, List.findSome?_cons]
    simp [Variant.of, hproj]
  have hde : (enum vs).de (.obj [(name, s.ser y)]) = inj <$> s.de (s.ser y) := by
    show (vs.find? (fun v => decide (v.name = name)) >>= fun v => v.get (some (s.ser y))) = _
    rw [hsplit, List.find?_append, hfind, List.find?_cons_of_pos (by simp [Variant.of])]
    rfl
  unfold CarriesIf
  rw [hser, hde, h]
  cases b with
  | true => exact congrArg some hinj
  | false => rfl

end Serde

end Edet
