import ScreenLink.Input.Pressure
import ScreenLink.Lib.Checked
import ScreenLink.Lib.Machine

/-!
# Overflow at the edge

`edge.rs`: `update_local` and `update_remote` with every `i32` operation checked; `none` is an overflow, which panics or
wraps, as the build has it. A sequence of calls gets through exactly when each of them fits the detector it meets, and
then the results are those of unbounded integers (`no_overflow_iff`). Coordinates and deltas far from the ends of the
range always fit (`small_inputs_never_overflow`); an `i32` that the system passes need not.
-/

namespace ScreenLink

open Machine

/-- The range of an `i32`. -/
abbrev InI32 (v : Int) : Prop := Checked.Signed 32 v

theorem inI32_iff {v : Int} : InI32 v ↔ -2147483648 ≤ v ∧ v ≤ 2147483647 := by
  show -2 ^ (32 - 1) ≤ v ∧ v < 2 ^ (32 - 1) ↔ _
  omega

/-- What `i32` operations return when they overflow in a release build. -/
def Arith.wrapping (f32 : ℚ → F32) : Arith := ⟨fun v => Int.bmod v (2 ^ 32), f32⟩

/-- An arithmetic that is exact where nothing overflows. -/
structure Arith.ExactInRange (ar : Arith) (f32 : ℚ → F32) : Prop where
  f32 : ar.f32 = f32
  i32 : ∀ v, InI32 v → ar.i32 v = v

theorem Arith.unbounded_exactInRange (f32 : ℚ → F32) : (Arith.unbounded f32).ExactInRange f32 := ⟨rfl, fun _ _ => rfl⟩

theorem Arith.wrapping_exactInRange (f32 : ℚ → F32) : (Arith.wrapping f32).ExactInRange f32 := by
  refine ⟨rfl, fun v hv => ?_⟩
  rw [inI32_iff] at hv
  exact Int.bmod_eq_of_le (by omega) (by omega)

namespace EdgeDetector

/-! ### The calls with checked arithmetic -/

/-- The test of `update_local`. -/
def atEdgeChecked (edge : ScreenEdge) (cx cy : Int) (screen : Rect) : Option Bool :=
  match edge with
  | .left => some (decide (cx ≤ screen.x))
  | .right => do
    let past ← Checked.signed 32 (screen.x + screen.w)
    let last ← Checked.signed 32 (past - 1)
    return decide (last ≤ cx)
  | .top => some (decide (cy ≤ screen.y))
  | .bottom => do
    let past ← Checked.signed 32 (screen.y + screen.h)
    let last ← Checked.signed 32 (past - 1)
    return decide (last ≤ cy)

def entryNormChecked (f32 : ℚ → F32) (edge : ScreenEdge) (cx cy : Int) (screen : Rect) : Option F32 :=
  match edge with
  | .left | .right => (Checked.signed 32 (cy - screen.y)).map fun v => norm (.unbounded f32) v screen.h
  | .top | .bottom => (Checked.signed 32 (cx - screen.x)).map fun v => norm (.unbounded f32) v screen.w

def updateLocalChecked (f32 : ℚ → F32) (d : EdgeDetector) (cx cy : Int) (screen : Rect) :
    Option (EdgeDetector × Option Transition) :=
  if d.site ≠ .local then some (d, none)
  else do
    let atEdge ← atEdgeChecked d.edge cx cy screen
    if !atEdge then return (d, none)
    else
      let entryNorm ← entryNormChecked f32 d.edge cx cy screen
      return ({ d with site := .remote, backPush := 0 }, some (.toRemote entryNorm))

def intoDeltaChecked (edge : ScreenEdge) (dx dy : Int) : Option Int :=
  match edge with
  | .right => some dx
  | .left => Checked.signed 32 (-dx)
  | .bottom => some dy
  | .top => Checked.signed 32 (-dy)

def updateRemoteChecked (d : EdgeDetector) (p : RemoteDelta) : Option (EdgeDetector × Option Transition) :=
  if d.site ≠ .remote then some (d, none)
  else do
    let intoDelta ← intoDeltaChecked d.edge p.dx p.dy
    if p.atReturnEdge ∧ intoDelta < 0 then
      let push ← Checked.signed 32 (-intoDelta)
      let backPush ← Checked.signed 32 (d.backPush + push)
      if d.hysteresis ≤ backPush then return ({ d with site := .local, backPush := 0 }, some .toLocal)
      else return ({ d with backPush := backPush }, none)
    else return ({ d with backPush := 0 }, none)

def useChecked (f32 : ℚ → F32) (d : EdgeDetector) : EdgeUse → Option (EdgeDetector × Option Transition)
  | .call (.updateLocal cx cy screen) => d.updateLocalChecked f32 cx cy screen
  | .call (.updateRemote p) => d.updateRemoteChecked p
  | .call .forceHome => some d.forceHome
  | .setEdge edge => some (d.setEdge edge, none)

/-- The same call in some arithmetic. -/
def use (ar : Arith) (d : EdgeDetector) : EdgeUse → EdgeDetector × Option Transition
  | .call c => d.call ar c
  | .setEdge edge => (d.setEdge edge, none)

/-! ### Which calls fit -/

/-- The cursor is at the edge of the screen. -/
def Reaches (edge : ScreenEdge) (cx cy : Int) (screen : Rect) : Prop :=
  match edge with
  | .left => cx ≤ screen.x
  | .right => screen.x + screen.w - 1 ≤ cx
  | .top => cy ≤ screen.y
  | .bottom => screen.y + screen.h - 1 ≤ cy

/-- The far side of the screen is in range, where it is computed. -/
def FarFits (edge : ScreenEdge) (screen : Rect) : Prop :=
  match edge with
  | .left | .top => True
  | .right => -2147483648 < screen.x + screen.w ∧ screen.x + screen.w ≤ 2147483647
  | .bottom => -2147483648 < screen.y + screen.h ∧ screen.y + screen.h ≤ 2147483647

/-- The distance along the edge. -/
def along (edge : ScreenEdge) (cx cy : Int) (screen : Rect) : Int :=
  match edge with
  | .left | .right => cy - screen.y
  | .top | .bottom => cx - screen.x

/-- No operation of `update_local` overflows. -/
structure FitsLocal (edge : ScreenEdge) (cx cy : Int) (screen : Rect) : Prop where
  far : FarFits edge screen
  along : Reaches edge cx cy screen → InI32 (along edge cx cy screen)

/-- No operation of `update_remote` overflows: a delta that is negated is not `i32::MIN`, and a push toward home leaves
room for what has been pushed. -/
structure FitsRemote (d : EdgeDetector) (p : RemoteDelta) : Prop where
  left : d.edge = .left → p.dx ≠ -2147483648
  top : d.edge = .top → p.dy ≠ -2147483648
  push : p.pushes d.edge = true → d.edge.home p.dx p.dy ≤ 2147483647 - d.backPush

def Fits (d : EdgeDetector) : EdgeUse → Prop
  | .call (.updateLocal cx cy screen) => d.site = .local → FitsLocal d.edge cx cy screen
  | .call (.updateRemote p) => d.site = .remote → d.FitsRemote p
  | _ => True

end EdgeDetector

/-- The arguments are `i32`s. -/
def EdgeUse.InRange : EdgeUse → Prop
  | .call (.updateLocal cx cy screen) =>
    InI32 cx ∧ InI32 cy ∧ InI32 screen.x ∧ InI32 screen.y ∧ InI32 screen.w ∧ InI32 screen.h
  | .call (.updateRemote p) => InI32 p.dx ∧ InI32 p.dy
  | _ => True

instance : DecidablePred EdgeUse.InRange
  | .call (.updateLocal ..) | .call (.updateRemote _) => inferInstanceAs (Decidable (_ ∧ _))
  | .call .forceHome | .setEdge _ => isTrue trivial

/-- A call with `i32` arguments. -/
structure EdgeInput where
  use : EdgeUse
  inRange : use.InRange

/-- A detector, and the transitions it has returned. -/
structure EdgeTrace where
  det : EdgeDetector
  returned : List Transition

namespace EdgeTrace

/-- The detector as `run_session` makes it. -/
def start (edge : ScreenEdge) : EdgeTrace := ⟨.new edge 25, []⟩

def step (f32 : ℚ → F32) (t : EdgeTrace) (u : EdgeInput) : Option EdgeTrace :=
  (t.det.useChecked f32 u.use).map fun p => ⟨p.1, t.returned ++ p.2.toList⟩

/-- The same step in some arithmetic. -/
def stepIn (ar : Arith) (t : EdgeTrace) (u : EdgeInput) : EdgeTrace :=
  let p := t.det.use ar u.use
  ⟨p.1, t.returned ++ p.2.toList⟩

end EdgeTrace

namespace EdgeDetector

/-! ### Each call -/

instance (edge : ScreenEdge) (cx cy : Int) (screen : Rect) : Decidable (Reaches edge cx cy screen) :=
  match edge with
  | .left | .right | .top | .bottom => inferInstanceAs (Decidable (_ ≤ _))

theorem far_checked {past v : Int} {b : Bool} :
    (do
      let past ← Checked.signed 32 past
      let last ← Checked.signed 32 (past - 1)
      return decide (last ≤ v)) = some b ↔
      (-2147483648 < past ∧ past ≤ 2147483647) ∧ decide (past - 1 ≤ v) = b := by
  simp only [Option.bind_eq_bind, Option.bind_eq_some_iff, Checked.signed_eq_some_iff, Option.pure_def,
    Option.some.injEq]
  constructor
  · rintro ⟨_, ⟨hpast, rfl⟩, _, ⟨hlast, rfl⟩, hb⟩
    have := inI32_iff.mp hpast
    have := inI32_iff.mp hlast
    exact ⟨by omega, hb⟩
  · rintro ⟨hpast, hb⟩
    exact ⟨_, ⟨inI32_iff.mpr (by omega), rfl⟩, _, ⟨inI32_iff.mpr (by omega), rfl⟩, hb⟩

theorem atEdgeChecked_eq_some_iff {edge : ScreenEdge} {cx cy : Int} {screen : Rect} {b : Bool} :
    atEdgeChecked edge cx cy screen = some b ↔ FarFits edge screen ∧ decide (Reaches edge cx cy screen) = b := by
  cases edge with
  | left => exact Option.some_inj.trans (iff_of_eq (true_and _)).symm
  | top => exact Option.some_inj.trans (iff_of_eq (true_and _)).symm
  | right => exact far_checked
  | bottom => exact far_checked

/-- The size of the screen along the edge. -/
def span (edge : ScreenEdge) (screen : Rect) : Int :=
  match edge with
  | .left | .right => screen.h
  | .top | .bottom => screen.w

theorem entryNormChecked_eq_some_iff {f32 : ℚ → F32} {edge : ScreenEdge} {cx cy : Int} {screen : Rect} {e : F32} :
    entryNormChecked f32 edge cx cy screen = some e ↔ InI32 (along edge cx cy screen) ∧
      norm (.unbounded f32) (along edge cx cy screen) (span edge screen) = e := by
  have hchecked : entryNormChecked f32 edge cx cy screen =
      (Checked.signed 32 (along edge cx cy screen)).map fun v => norm (.unbounded f32) v (span edge screen) := by
    cases edge <;> rfl
  rw [hchecked, Option.map_eq_some_iff]
  constructor
  · rintro ⟨v, hv, rfl⟩
    obtain ⟨hfits, rfl⟩ := Checked.signed_eq_some_iff.mp hv
    exact ⟨hfits, rfl⟩
  · rintro ⟨hfits, rfl⟩
    exact ⟨_, Checked.signed_of_fits hfits, rfl⟩

variable {ar : Arith} {f32 : ℚ → F32} {d : EdgeDetector} {p : RemoteDelta} {cx cy : Int} {screen : Rect}

theorem norm_eq (har : ar.ExactInRange f32) (v span : Int) : norm ar v span = norm (.unbounded f32) v span := by
  unfold norm
  rw [har.f32]
  rfl

theorem updateLocal_of_fits (har : ar.ExactInRange f32) (hsite : d.site = .local)
    (h : FitsLocal d.edge cx cy screen) :
    d.updateLocal ar cx cy screen =
      if Reaches d.edge cx cy screen then
        ({ d with site := .remote, backPush := 0 },
          some (.toRemote (norm (.unbounded f32) (along d.edge cx cy screen) (span d.edge screen))))
      else (d, none) := by
  obtain ⟨hfar, halong⟩ := h
  -- the sum that some edges test, one past the screen
  have hfarthest : ∀ {past : Int}, -2147483648 < past ∧ past ≤ 2147483647 →
      ar.i32 (ar.i32 past - 1) = past - 1 := by
    intro past hpast
    rw [har.i32 past (inI32_iff.mpr (by omega)), har.i32 (past - 1) (inI32_iff.mpr (by omega))]
  unfold updateLocal
  rw [if_neg (by simp [hsite])]
  cases hedge : d.edge <;> simp only [hedge, FarFits, Reaches, along, span] at hfar halong ⊢
  · by_cases hr : cx ≤ screen.x
    · simp [hr, har.i32 _ (halong hr), norm_eq har]
    · simp [hr]
  · rw [hfarthest hfar]
    by_cases hr : screen.x + screen.w - 1 ≤ cx
    · simp [hr, har.i32 _ (halong hr), norm_eq har]
    · simp [hr]
  · by_cases hr : cy ≤ screen.y
    · simp [hr, har.i32 _ (halong hr), norm_eq har]
    · simp [hr]
  · rw [hfarthest hfar]
    by_cases hr : screen.y + screen.h - 1 ≤ cy
    · simp [hr, har.i32 _ (halong hr), norm_eq har]
    · simp [hr]

theorem updateLocalChecked_eq_some_iff (har : ar.ExactInRange f32) {r : EdgeDetector × Option Transition} :
    d.updateLocalChecked f32 cx cy screen = some r ↔
      (d.site = .local → FitsLocal d.edge cx cy screen) ∧ d.updateLocal ar cx cy screen = r := by
  unfold updateLocalChecked
  by_cases hsite : d.site = .local
  · rw [if_neg (by simp [hsite]), Option.bind_eq_bind, Option.bind_eq_some_iff]
    constructor
    · rintro ⟨b, hb, hr⟩
      obtain ⟨hfar, rfl⟩ := atEdgeChecked_eq_some_iff.mp hb
      by_cases hreach : Reaches d.edge cx cy screen
      · rw [if_neg (by simp [hreach])] at hr
        obtain ⟨e, he, hr⟩ := Option.bind_eq_some_iff.mp hr
        obtain ⟨halong, rfl⟩ := entryNormChecked_eq_some_iff.mp he
        have hfits : FitsLocal d.edge cx cy screen := ⟨hfar, fun _ => halong⟩
        rw [updateLocal_of_fits har hsite hfits, if_pos hreach]
        exact ⟨fun _ => hfits, Option.some.inj hr⟩
      · rw [if_pos (by simp [hreach])] at hr
        have hfits : FitsLocal d.edge cx cy screen := ⟨hfar, fun h => absurd h hreach⟩
        rw [updateLocal_of_fits har hsite hfits, if_neg hreach]
        exact ⟨fun _ => hfits, Option.some.inj hr⟩
    · rintro ⟨hfits, rfl⟩
      have hfits := hfits hsite
      refine ⟨_, atEdgeChecked_eq_some_iff.mpr ⟨hfits.far, rfl⟩, ?_⟩
      rw [updateLocal_of_fits har hsite hfits]
      by_cases hreach : Reaches d.edge cx cy screen
      · rw [if_neg (by simp [hreach]), if_pos hreach, entryNormChecked_eq_some_iff.mpr ⟨hfits.along hreach, rfl⟩]
        rfl
      · rw [if_pos (by simp [hreach]), if_neg hreach]
        rfl
  · rw [if_pos hsite, updateLocal, if_pos hsite, Option.some_inj]
    exact ⟨fun h => ⟨fun hlocal => absurd hlocal hsite, h⟩, fun h => h.2⟩

theorem intoDeltaChecked_eq_some_iff {edge : ScreenEdge} {dx dy into : Int} (hdx : InI32 dx) (hdy : InI32 dy) :
    intoDeltaChecked edge dx dy = some into ↔
      ((edge = .left → dx ≠ -2147483648) ∧ (edge = .top → dy ≠ -2147483648)) ∧ -edge.home dx dy = into := by
  have hx := inI32_iff.mp hdx
  have hy := inI32_iff.mp hdy
  cases edge with
  | right => simp [intoDeltaChecked, ScreenEdge.home]
  | bottom => simp [intoDeltaChecked, ScreenEdge.home]
  | left =>
    rw [intoDeltaChecked, Checked.signed_eq_some_iff, show Checked.Signed 32 (-dx) ↔ dx ≠ -2147483648 from
      inI32_iff.trans (by omega)]
    simp [ScreenEdge.home]
  | top =>
    rw [intoDeltaChecked, Checked.signed_eq_some_iff, show Checked.Signed 32 (-dy) ↔ dy ≠ -2147483648 from
      inI32_iff.trans (by omega)]
    simp [ScreenEdge.home]

/-- The delta toward the remote screen, in some arithmetic. -/
def intoDelta (ar : Arith) (edge : ScreenEdge) (dx dy : Int) : Int :=
  match edge with
  | .right => dx
  | .left => ar.i32 (-dx)
  | .bottom => dy
  | .top => ar.i32 (-dy)

theorem updateRemote_eq_intoDelta (hsite : d.site = .remote) :
    d.updateRemote ar p.dx p.dy p.atReturnEdge =
      if p.atReturnEdge ∧ intoDelta ar d.edge p.dx p.dy < 0 then
        if d.hysteresis ≤ ar.i32 (d.backPush + ar.i32 (-intoDelta ar d.edge p.dx p.dy)) then
          ({ d with site := .local, backPush := 0 }, some .toLocal)
        else ({ d with backPush := ar.i32 (d.backPush + ar.i32 (-intoDelta ar d.edge p.dx p.dy)) }, none)
      else ({ d with backPush := 0 }, none) := by
  rw [updateRemote, if_neg (by simp [hsite])]
  rfl

theorem intoDelta_eq (har : ar.ExactInRange f32) (hdx : InI32 p.dx) (hdy : InI32 p.dy)
    (hleft : d.edge = .left → p.dx ≠ -2147483648) (htop : d.edge = .top → p.dy ≠ -2147483648) :
    intoDelta ar d.edge p.dx p.dy = -d.edge.home p.dx p.dy := by
  have hx := inI32_iff.mp hdx
  have hy := inI32_iff.mp hdy
  cases hedge : d.edge with
  | right => simp [intoDelta, ScreenEdge.home]
  | bottom => simp [intoDelta, ScreenEdge.home]
  | left => exact har.i32 _ (inI32_iff.mpr (by have := hleft hedge; omega))
  | top => exact har.i32 _ (inI32_iff.mpr (by have := htop hedge; omega))

theorem pushes_iff_into : p.pushes d.edge = true ↔ p.atReturnEdge = true ∧ -d.edge.home p.dx p.dy < 0 := by
  rw [RemoteDelta.pushes_iff, Int.neg_neg_iff_pos]

theorem updateRemote_of_fits (har : ar.ExactInRange f32) (hsite : d.site = .remote) (hnonneg : 0 ≤ d.backPush)
    (hdx : InI32 p.dx) (hdy : InI32 p.dy) (h : d.FitsRemote p) :
    d.updateRemote ar p.dx p.dy p.atReturnEdge = d.updateRemote (.unbounded f32) p.dx p.dy p.atReturnEdge := by
  rw [updateRemote_eq f32 d p hsite, updateRemote_eq_intoDelta hsite, intoDelta_eq har hdx hdy h.left h.top]
  simp only [← pushes_iff_into, Int.neg_neg]
  by_cases hpush : p.pushes d.edge = true
  · have hroom := h.push hpush
    have hpos := (RemoteDelta.pushes_iff.mp hpush).2
    rw [har.i32 (d.edge.home p.dx p.dy) (inI32_iff.mpr (by omega)),
      har.i32 (d.backPush + d.edge.home p.dx p.dy) (inI32_iff.mpr (by omega))]
  · rw [if_neg hpush, if_neg hpush]

theorem updateRemoteChecked_eq_some_iff (har : ar.ExactInRange f32) (hnonneg : 0 ≤ d.backPush) (hdx : InI32 p.dx)
    (hdy : InI32 p.dy) {r : EdgeDetector × Option Transition} :
    d.updateRemoteChecked p = some r ↔
      (d.site = .remote → d.FitsRemote p) ∧ d.updateRemote ar p.dx p.dy p.atReturnEdge = r := by
  unfold updateRemoteChecked
  by_cases hsite : d.site = .remote
  · rw [if_neg (by simp [hsite]), Option.bind_eq_bind, Option.bind_eq_some_iff]
    constructor
    · rintro ⟨into, hinto, hr⟩
      obtain ⟨⟨hleft, htop⟩, rfl⟩ := (intoDeltaChecked_eq_some_iff hdx hdy).mp hinto
      simp only [← pushes_iff_into, Int.neg_neg] at hr
      by_cases hpush : p.pushes d.edge = true
      · rw [if_pos hpush] at hr
        obtain ⟨push, hp, hr⟩ := Option.bind_eq_some_iff.mp hr
        obtain ⟨hhome, rfl⟩ := Checked.signed_eq_some_iff.mp hp
        obtain ⟨backPush, hb, hr⟩ := Option.bind_eq_some_iff.mp hr
        obtain ⟨hsum, rfl⟩ := Checked.signed_eq_some_iff.mp hb
        have hsum := inI32_iff.mp hsum
        have hfits : d.FitsRemote p := ⟨hleft, htop, fun _ => by omega⟩
        refine ⟨fun _ => hfits, ?_⟩
        rw [updateRemote_of_fits har hsite hnonneg hdx hdy hfits, updateRemote_eq f32 d p hsite, if_pos hpush]
        split_ifs at hr ⊢ <;> exact Option.some.inj hr
      · rw [if_neg hpush] at hr
        have hfits : d.FitsRemote p := ⟨hleft, htop, fun h => absurd h hpush⟩
        refine ⟨fun _ => hfits, ?_⟩
        rw [updateRemote_of_fits har hsite hnonneg hdx hdy hfits, updateRemote_eq f32 d p hsite, if_neg hpush]
        exact Option.some.inj hr
    · rintro ⟨hfits, rfl⟩
      have hfits := hfits hsite
      refine ⟨_, (intoDeltaChecked_eq_some_iff hdx hdy).mpr ⟨⟨hfits.left, hfits.top⟩, rfl⟩, ?_⟩
      rw [updateRemote_of_fits har hsite hnonneg hdx hdy hfits, updateRemote_eq f32 d p hsite]
      simp only [← pushes_iff_into, Int.neg_neg]
      by_cases hpush : p.pushes d.edge = true
      · have hroom := hfits.push hpush
        have hpos := (RemoteDelta.pushes_iff.mp hpush).2
        rw [if_pos hpush, if_pos hpush, Checked.signed_of_fits (inI32_iff.mpr (by omega))]
        dsimp only [Option.bind_eq_bind, Option.bind_some]
        rw [Checked.signed_of_fits (inI32_iff.mpr (by omega))]
        dsimp only [Option.bind_some]
        split_ifs <;> rfl
      · rw [if_neg hpush, if_neg hpush]
        rfl
  · rw [if_pos hsite, updateRemote, if_pos hsite, Option.some_inj]
    exact ⟨fun h => ⟨fun hremote => absurd hremote hsite, h⟩, fun h => h.2⟩

theorem useChecked_eq_some_iff (har : ar.ExactInRange f32) (hnonneg : 0 ≤ d.backPush) (u : EdgeInput)
    {r : EdgeDetector × Option Transition} : d.useChecked f32 u.use = some r ↔ d.Fits u.use ∧ d.use ar u.use = r := by
  obtain ⟨u, hu⟩ := u
  match u, hu with
  | .call (.updateLocal cx cy screen), _ => exact updateLocalChecked_eq_some_iff har
  | .call (.updateRemote p), ⟨hdx, hdy⟩ => exact updateRemoteChecked_eq_some_iff har hnonneg hdx hdy
  | .call .forceHome, _ => exact Option.some_inj.trans (iff_of_eq (true_and _)).symm
  | .setEdge edge, _ => exact Option.some_inj.trans (iff_of_eq (true_and _)).symm

/-- The counter is not negative, and below the hysteresis. -/
structure Steady (d : EdgeDetector) : Prop where
  nonneg : 0 ≤ d.backPush
  below : d.backPush < d.hysteresis
  hysteresis : d.hysteresis = 25

theorem steady_new (edge : ScreenEdge) : (new edge 25).Steady where
  nonneg := le_rfl
  below := show (0 : Int) < max 25 1 by decide
  hysteresis := show (max 25 1 : Int) = 25 by decide

theorem Steady.use (h : d.Steady) (f32 : ℚ → F32) (u : EdgeUse) : (d.use (.unbounded f32) u).1.Steady := by
  obtain ⟨hnonneg, hbelow, hhysteresis⟩ := h
  have hzero : ∀ site, Steady { d with site := site, backPush := 0 } := fun _ =>
    ⟨le_rfl, hnonneg.trans_lt hbelow, hhysteresis⟩
  match u with
  | .call (.updateLocal cx cy screen) =>
    rcases d.updateLocal_eq (.unbounded f32) cx cy screen with heq | ⟨-, entryNorm, heq⟩
    · rw [EdgeDetector.use, call, heq]
      exact ⟨hnonneg, hbelow, hhysteresis⟩
    · rw [EdgeDetector.use, call, heq]
      exact hzero _
  | .call (.updateRemote p) =>
    cases hsite : d.site with
    | «local» =>
      rw [EdgeDetector.use, call, updateRemote_of_local _ _ _ _ _ hsite]
      exact ⟨hnonneg, hbelow, hhysteresis⟩
    | remote =>
      rw [EdgeDetector.use, call, updateRemote_det f32 d p hsite]
      split_ifs with hpush hreach
      · exact hzero _
      · have hpos := (RemoteDelta.pushes_iff.mp hpush).2
        exact ⟨Int.add_nonneg hnonneg hpos.le, Int.not_le.mp hreach, hhysteresis⟩
      · exact hzero _
  | .call .forceHome =>
    rcases d.forceHome_cases with ⟨-, heq⟩ | ⟨-, heq⟩
    · rw [EdgeDetector.use, call, heq]
      exact hzero _
    · rw [EdgeDetector.use, call, heq]
      exact ⟨hnonneg, hbelow, hhysteresis⟩
  | .setEdge edge => exact ⟨hnonneg, hbelow, hhysteresis⟩

end EdgeDetector

namespace EdgeTrace

/-! ### Any calls -/

variable {ar : Arith} {f32 : ℚ → F32} {t t' : EdgeTrace} {u : EdgeInput}

theorem step_eq_some_iff (har : ar.ExactInRange f32) (h : t.det.Steady) :
    step f32 t u = some t' ↔ t.det.Fits u.use ∧ t.stepIn ar u = t' := by
  rw [step, Option.map_eq_some_iff]
  constructor
  · rintro ⟨r, hr, rfl⟩
    obtain ⟨hfits, rfl⟩ := (EdgeDetector.useChecked_eq_some_iff har h.nonneg u).mp hr
    exact ⟨hfits, rfl⟩
  · rintro ⟨hfits, rfl⟩
    exact ⟨_, (EdgeDetector.useChecked_eq_some_iff har h.nonneg u).mpr ⟨hfits, rfl⟩, rfl⟩

theorem steady_step (h : t.det.Steady) (hstep : step f32 t u = some t') : t'.det.Steady := by
  obtain ⟨-, rfl⟩ := (step_eq_some_iff (Arith.unbounded_exactInRange f32) h).mp hstep
  exact h.use f32 u.use

theorem isSome_step_iff (h : t.det.Steady) : (step f32 t u).isSome ↔ ¬ ¬ t.det.Fits u.use := by
  rw [not_not, Option.isSome_iff_exists]
  constructor
  · rintro ⟨t', ht'⟩
    exact ((step_eq_some_iff (Arith.unbounded_exactInRange f32) h).mp ht').1
  · intro hfits
    exact ⟨_, (step_eq_some_iff (Arith.unbounded_exactInRange f32) h).mpr ⟨hfits, rfl⟩⟩

theorem run_eq_foldl (har : ar.ExactInRange f32) (uses : List EdgeInput) (h : t.det.Steady)
    (hrun : run (step f32) t uses = some t') : uses.foldl (stepIn ar) t = t' := by
  induction uses generalizing t with
  | nil => exact Option.some.inj hrun
  | cons u uses ih =>
    obtain ⟨v, hv, hrest⟩ := Option.bind_eq_some_iff.mp hrun
    rw [List.foldl_cons, ((step_eq_some_iff har h).mp hv).2]
    exact ih (steady_step h hv) hrest

theorem isSome_run_iff (f32 : ℚ → F32) (edge : ScreenEdge) (uses : List EdgeInput) :
    (run (step f32) (start edge) uses).isSome ↔
      ¬ Seen (step f32) (fun t u => ¬ t.det.Fits u.use) (start edge) uses :=
  run_isSome_iff (A := fun t => t.det.Steady) (EdgeDetector.steady_new edge)
    (fun _ _ _ ht hstep => steady_step ht hstep) (fun _ _ ht => isSome_step_iff ht) uses

/-- Any calls with `i32` arguments on a detector with the hysteresis 25: nothing overflows iff no call meets a detector
that it does not fit. Then the results are the same in every arithmetic that is exact within the range, as that of
a release build is and that of unbounded integers. -/
theorem no_overflow_iff (f32 : ℚ → F32) (edge : ScreenEdge) (uses : List EdgeInput) :
    ((run (step f32) (start edge) uses).isSome ↔
        ¬ Seen (step f32) (fun t u => ¬ t.det.Fits u.use) (start edge) uses) ∧
      ∀ t, run (step f32) (start edge) uses = some t →
        ∀ ar : Arith, ar.ExactInRange f32 → uses.foldl (stepIn ar) (start edge) = t :=
  ⟨isSome_run_iff f32 edge uses, fun _ hrun _ har => run_eq_foldl har uses (EdgeDetector.steady_new edge) hrun⟩

/-- The cursor reaches the right edge of a 1920x1080 screen. -/
def crossing : EdgeInput := ⟨.call (.updateLocal 1919 540 ⟨0, 0, 1920, 1080⟩), by decide⟩

/-- Two pushes toward home, the second of them as far as a delta can say. -/
def pushTen : EdgeInput := ⟨.call (.updateRemote ⟨-10, 0, true⟩), by decide⟩

def pushMost : EdgeInput := ⟨.call (.updateRemote ⟨-2147483647, 0, true⟩), by decide⟩

/-- A screen whose far side is out of range. -/
def farScreen : EdgeInput := ⟨.call (.updateLocal 0 0 ⟨2147483647, 0, 1, 1⟩), by decide⟩

/-- A screen overflows by itself, and the push counter overflows with the second push: a debug build panics, and in a
release build the counter wraps below zero and control stays remote. -/
theorem edge_overflows :
    (run (step id) (start .right) [farScreen]).isNone = true ∧
      (run (step id) (start .right) [crossing, pushTen, pushMost]).isNone = true ∧
      ([crossing, pushTen, pushMost].foldl (stepIn (.wrapping id)) (start .right)).det =
        ⟨.right, 25, .remote, -2147483639⟩ :=
  ⟨rfl, rfl, rfl⟩

end EdgeTrace

/-! ### What fits -/

/-- Less than half of the range. -/
def Near (v : Int) : Prop := -1073741824 < v ∧ v < 1073741824

/-- Coordinates, sizes and deltas are near zero. -/
def EdgeUse.Small : EdgeUse → Prop
  | .call (.updateLocal cx cy screen) =>
    Near cx ∧ Near cy ∧ Near screen.x ∧ Near screen.y ∧ Near screen.w ∧ Near screen.h
  | .call (.updateRemote p) => Near p.dx ∧ Near p.dy
  | _ => True

theorem EdgeDetector.Steady.fits_of_small {d : EdgeDetector} (h : d.Steady) {u : EdgeUse} (hsmall : u.Small) :
    d.Fits u := by
  have hbelow := h.below
  have hhysteresis := h.hysteresis
  match u, hsmall with
  | .call (.updateLocal cx cy screen), ⟨hcx, hcy, hx, hy, hw, hh⟩ =>
    unfold Near at hcx hcy hx hy hw hh
    refine fun _ => ⟨?_, fun _ => inI32_iff.mpr ?_⟩
    · cases d.edge <;> simp only [EdgeDetector.FarFits] <;> omega
    · cases d.edge <;> simp only [EdgeDetector.along] <;> omega
  | .call (.updateRemote p), ⟨hdx, hdy⟩ =>
    unfold Near at hdx hdy
    refine fun _ => ⟨fun _ => by omega, fun _ => by omega, fun _ => ?_⟩
    cases d.edge <;> simp only [ScreenEdge.home] <;> omega
  | .call .forceHome, _ => trivial
  | .setEdge edge, _ => trivial

/-- Screens and deltas of less than 2^30 never overflow. -/
theorem EdgeTrace.small_inputs_never_overflow (f32 : ℚ → F32) (edge : ScreenEdge) (uses : List EdgeInput)
    (hsmall : ∀ u ∈ uses, u.use.Small) : (run (EdgeTrace.step f32) (.start edge) uses).isSome := by
  rw [EdgeTrace.isSome_run_iff]
  rintro ⟨front, u, back, t, rfl, ht, hnot⟩
  have hsteady : t.det.Steady :=
    run_invariant (P := fun t => t.det.Steady) (EdgeDetector.steady_new edge)
      (fun _ _ _ ht hstep => EdgeTrace.steady_step ht hstep) front t ht
  exact hnot (hsteady.fits_of_small (hsmall u (by simp)))

end ScreenLink
