import Open3DStream.Repeat

/-! Numbers that overflow, and a packet that is not repeated faithfully because of them. -/

namespace Open3DStream

open Lib

/-- Exact rationals below the magnitude at which a `double` overflows. -/
def Double : Type := Extended

namespace Double

instance : DecidableEq Double := inferInstanceAs (DecidableEq Extended)

instance : LinearOrder Double := inferInstanceAs (LinearOrder Extended)

instance encodableDouble : Encodable Double := inferInstanceAs (Encodable Extended)

def exactly (q : ℚ) : Double := (some q : Extended)

def infinite : Double := (⊤ : Extended)

def limit : Extended → Double
  | some a => if |a| < 2 ^ 1024 then some a else (⊤ : Extended)
  | none => (⊤ : Extended)

instance : Numeric Double Extended where
  zero := (some 0 : Extended)
  one := (some 1 : Extended)
  add a b := limit (Extended.lift (· + ·) a b)
  sub a b := limit (Extended.lift (· - ·) a b)
  mul a b := limit (Extended.lift (· * ·) a b)
  isFinite := Extended.isFinite
  finite_zero := rfl
  finite_one := rfl
  floatZero := some 0
  narrow := Extended.narrow
  widen := limit
  ofRat q := limit (some q)
  vectorDistance v w := limit (Extended.distance ⟨v.x, v.y, v.z⟩ ⟨w.x, w.y, w.z⟩)
  angularDistance p q := if p = q then (some 0 : Extended) else (some 1 : Extended)
  uninit := ⟨(⊤ : Extended), (⊤ : Extended), (⊤ : Extended), (⊤ : Extended)⟩

end Double

/-- The table of an empty root. -/
def Double.blank : Data.SubjectList Double Extended where
  performers := none
  performer_updates := none
  rigidbodies := none
  rigidbody_updates := none
  cameras := none
  camera_updates := none
  time := 0
  timecode := none
  x_axis := 2
  y_axis := 5
  z_axis := 3
  distance_unit := 3
  envelope := {}

instance : Wire Double Extended where
  finish := encodeBytes
  verify bs := (decodeBytes bs : Option (Data.SubjectList Double Extended)).isSome
  root bs := (decodeBytes bs).getD Double.blank
  crc := crc32

instance : LawfulWire Double Extended where
  verify_finish p := by
    change (decodeBytes (encodeBytes p) : Option (Data.SubjectList Double Extended)).isSome = true
    rw [decodeBytes_encodeBytes]
    rfl
  root_finish p := by
    change (decodeBytes (encodeBytes p)).getD Double.blank = p
    rw [decodeBytes_encodeBytes]
    rfl

/-- A full packet of a performer whose components are as given, in some unit. -/
def solo (uuid : String) (unit : Int) (size : ℚ) (components : List Int) :
    Data.SubjectList Double Extended :=
  let node : Data.Transform Extended :=
    { parent := -1, name := some "root", translation := some ⟨some 1, some 0, some 0⟩
      rotation := none, scale := some ⟨some size, some size, some size⟩
      matrix := some [], components := some components }
  { Double.blank with
    performers := some [⟨some ⟨some [node], some "solo", some uuid⟩⟩], distance_unit := unit }

/-- Eight scales in a row that are large for a `float`, in metres. -/
def tall : Data.SubjectList Double Extended := solo "a" 3 (2 ^ 127) [2, 2, 2, 2, 2, 2, 2, 2, 0]

/-- A step to the side, in parsecs. -/
def far : Data.SubjectList Double Extended := solo "b" 9 1 [0]

namespace SubjectList

instance (l : SubjectList Double Extended) (p : Data.SubjectList Double Extended) :
    Decidable (l.UuidsApart p) :=
  inferInstanceAs (Decidable (Separated Identity.kind Identity.uuid _))

/-- Where the subjects of a list are along an axis. -/
def positions (axis : Fin 3) (l : SubjectList Double Extended) : List (String × List Double) :=
  l.mItems.map fun s => (s.mUuid, (worlds s).map (·.coeff axis.castSucc (Fin.last 3)))

theorem positions_of_visible {l r : SubjectList Double Extended}
    (h : r.mItems.map Subject.visible = l.mItems.map Subject.visible) (axis : Fin 3) :
    positions axis r = positions axis l := by
  have hworlds (s : Subject Double Extended) : worlds s.visible = worlds s := by
    simp only [worlds, Subject.visible, List.map_map]
    rfl
  have hmap (u : SubjectList Double Extended) : positions axis u =
      (u.mItems.map Subject.visible).map fun s =>
        (s.mUuid, (worlds s).map (·.coeff axis.castSucc (Fin.last 3))) := by
    rw [positions, List.map_map]
    apply List.map_congr_left
    intro s _
    rw [Function.comp_apply, hworlds]
    rfl
  rw [hmap, h, ← hmap]

/-- The first packet on an empty list, then the second one twice. -/
def reparsed (axis : Fin 3) : Option (List Bool × List (List (String × List Double))) := do
  let (ok, l) ← (SubjectList.empty 0).parseRoot tall false
  let (ok', r) ← { l with mError := "" }.parseRoot far false
  let (ok'', r') ← { r with mError := "" }.parseRoot far false
  some ([ok, decide (l.UuidsApart far), ok', ok''], [positions axis r, positions axis r'])

set_option synthInstance.maxSize 256 in
/-- The second packet takes the subject of the first one past the largest number. Parsing it
again is given up at that, and leaves its own subject where no evaluation has been. -/
theorem overflow_not_repeated : ∃ l r r',
    Lib.run call (SubjectList.empty 0) [.parse (some (finalize tall 1)) false] =
      some ([.parsed true], l) ∧ l.UuidsApart far ∧
      l.parse (some (finalize far 1)) false = some (true, r) ∧
      r.parse (some (finalize far 1)) false = some (false, r') ∧
      positions 0 r' = [("a", [Double.infinite]), ("b", [Double.exactly 0])] ∧
      r'.mItems.map Subject.visible ≠ r.mItems.map Subject.visible := by
  have h : reparsed 0 = some ([true, true, true, false],
      [[("a", [Double.infinite]), ("b", [Double.exactly (3086 * 10 ^ 13)])],
        [("a", [Double.infinite]), ("b", [Double.exactly 0])]]) := by
    decide +kernel
  rw [reparsed, Option.bind_eq_bind, Option.bind_eq_some_iff] at h
  obtain ⟨⟨ok, l⟩, hl, h⟩ := h
  obtain ⟨⟨ok', r⟩, hr, h⟩ := Option.bind_eq_some_iff.mp h
  obtain ⟨⟨ok'', r'⟩, hr', h⟩ := Option.bind_eq_some_iff.mp h
  simp only [Option.some.injEq, Prod.mk.injEq, List.cons.injEq, decide_eq_true_eq, and_true] at h
  obtain ⟨⟨rfl, hapart, rfl, rfl⟩, hpos, hpos'⟩ := h
  have hfirst : (SubjectList.empty 0).parse (some (finalize tall 1)) false = some (true, l) :=
    (parse_verified _ (verified_finalize tall (.inl rfl)) false).trans hl
  have hfar := verified_finalize far  (.inl rfl)
  refine ⟨l, r, r', ?_, hapart, (parse_verified l hfar false).trans hr,
    (parse_verified r hfar false).trans hr', hpos', ?_⟩
  · exact run_cons_eq_some_iff.mpr ⟨_, l, [], by rw [call, hfirst]; rfl, rfl, rfl⟩
  · intro hvis
    have heq := positions_of_visible hvis 0
    rw [hpos, hpos'] at heq
    exact absurd heq (by decide +kernel)

end SubjectList

end Open3DStream
