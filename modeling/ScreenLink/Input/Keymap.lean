import ScreenLink.Core.Protocol

/-!
# Keys on Windows

`keymap_win.rs`: the virtual-key code that is injected for a key, and the key a code is captured as. Every named key
comes back; a raw code comes back if it fits 16 bits and Windows has no name for it (`keyForVk_vkFor_iff`).
-/

namespace ScreenLink

/-- How to inject a key on Windows. -/
inductive VkMapping
  /-- A virtual-key code, and whether it needs the extended-key flag. -/
  | vk (code : BitVec 16) (extended : Bool)
  | unicode (c : Char)
  deriving DecidableEq

/-- Map a portable key to its Windows injection form. -/
def vkFor : Key → VkMapping
  | .a => .vk 0x41 false | .b => .vk 0x42 false | .c => .vk 0x43 false | .d => .vk 0x44 false | .e => .vk 0x45 false
  | .f => .vk 0x46 false | .g => .vk 0x47 false | .h => .vk 0x48 false | .i => .vk 0x49 false | .j => .vk 0x4A false
  | .k => .vk 0x4B false | .l => .vk 0x4C false | .m => .vk 0x4D false | .n => .vk 0x4E false | .o => .vk 0x4F false
  | .p => .vk 0x50 false | .q => .vk 0x51 false | .r => .vk 0x52 false | .s => .vk 0x53 false | .t => .vk 0x54 false
  | .u => .vk 0x55 false | .v => .vk 0x56 false | .w => .vk 0x57 false | .x => .vk 0x58 false | .y => .vk 0x59 false
  | .z => .vk 0x5A false | .num0 => .vk 0x30 false | .num1 => .vk 0x31 false | .num2 => .vk 0x32 false
  | .num3 => .vk 0x33 false | .num4 => .vk 0x34 false | .num5 => .vk 0x35 false | .num6 => .vk 0x36 false
  | .num7 => .vk 0x37 false | .num8 => .vk 0x38 false | .num9 => .vk 0x39 false | .f1 => .vk 0x70 false
  | .f2 => .vk 0x71 false | .f3 => .vk 0x72 false | .f4 => .vk 0x73 false | .f5 => .vk 0x74 false
  | .f6 => .vk 0x75 false | .f7 => .vk 0x76 false | .f8 => .vk 0x77 false | .f9 => .vk 0x78 false
  | .f10 => .vk 0x79 false | .f11 => .vk 0x7A false | .f12 => .vk 0x7B false | .controlLeft => .vk 0xA2 false
  | .controlRight => .vk 0xA3 true | .shiftLeft => .vk 0xA0 false | .shiftRight => .vk 0xA1 false
  | .altLeft => .vk 0xA4 false | .altRight => .vk 0xA5 true | .metaLeft => .vk 0x5B true
  | .metaRight => .vk 0x5C true | .enter => .vk 0x0D false | .escape => .vk 0x1B false | .backspace => .vk 0x08 false
  | .tab => .vk 0x09 false | .space => .vk 0x20 false | .capsLock => .vk 0x14 false | .insert => .vk 0x2D true
  | .delete => .vk 0x2E true | .home => .vk 0x24 true | .«end» => .vk 0x23 true | .pageUp => .vk 0x21 true
  | .pageDown => .vk 0x22 true | .arrowUp => .vk 0x26 true | .arrowDown => .vk 0x28 true
  | .arrowLeft => .vk 0x25 true | .arrowRight => .vk 0x27 true | .minus => .vk 0xBD false | .equal => .vk 0xBB false
  | .bracketLeft => .vk 0xDB false | .bracketRight => .vk 0xDD false | .backslash => .vk 0xDC false
  | .semicolon => .vk 0xBA false | .quote => .vk 0xDE false | .backquote => .vk 0xC0 false | .comma => .vk 0xBC false
  | .period => .vk 0xBE false | .slash => .vk 0xBF false | .numpad0 => .vk 0x60 false | .numpad1 => .vk 0x61 false
  | .numpad2 => .vk 0x62 false | .numpad3 => .vk 0x63 false | .numpad4 => .vk 0x64 false | .numpad5 => .vk 0x65 false
  | .numpad6 => .vk 0x66 false | .numpad7 => .vk 0x67 false | .numpad8 => .vk 0x68 false | .numpad9 => .vk 0x69 false
  | .numpadAdd => .vk 0x6B false | .numpadSubtract => .vk 0x6D false | .numpadMultiply => .vk 0x6A false
  | .numpadDivide => .vk 0x6F true | .numpadDecimal => .vk 0x6E false | .numpadEnter => .vk 0x0D true
  | .printScreen => .vk 0x2C false | .scrollLock => .vk 0x91 false | .pause => .vk 0x13 false
  | .numLock => .vk 0x90 true | .contextMenu => .vk 0x5D true
  | .char c => .unicode c
  | .raw n => .vk (n.setWidth 16) false

/-- The codes with one key, whatever the extended flag. -/
def vkKeys : List (BitVec 16 × Key) :=
  [(0x41, .a), (0x42, .b), (0x43, .c), (0x44, .d), (0x45, .e), (0x46, .f), (0x47, .g), (0x48, .h), (0x49, .i),
   (0x4A, .j), (0x4B, .k), (0x4C, .l), (0x4D, .m), (0x4E, .n), (0x4F, .o), (0x50, .p), (0x51, .q), (0x52, .r),
   (0x53, .s), (0x54, .t), (0x55, .u), (0x56, .v), (0x57, .w), (0x58, .x), (0x59, .y), (0x5A, .z), (0x30, .num0),
   (0x31, .num1), (0x32, .num2), (0x33, .num3), (0x34, .num4), (0x35, .num5), (0x36, .num6), (0x37, .num7),
   (0x38, .num8), (0x39, .num9), (0x70, .f1), (0x71, .f2), (0x72, .f3), (0x73, .f4), (0x74, .f5), (0x75, .f6),
   (0x76, .f7), (0x77, .f8), (0x78, .f9), (0x79, .f10), (0x7A, .f11), (0x7B, .f12), (0x11, .controlLeft),
   (0xA2, .controlLeft), (0xA3, .controlRight), (0x10, .shiftLeft), (0xA0, .shiftLeft), (0xA1, .shiftRight),
   (0x12, .altLeft), (0xA4, .altLeft), (0xA5, .altRight), (0x5B, .metaLeft), (0x5C, .metaRight), (0x1B, .escape),
   (0x08, .backspace), (0x09, .tab), (0x20, .space), (0x14, .capsLock), (0x2D, .insert), (0x2E, .delete),
   (0x24, .home), (0x23, .«end»), (0x21, .pageUp), (0x22, .pageDown), (0x26, .arrowUp), (0x28, .arrowDown),
   (0x25, .arrowLeft), (0x27, .arrowRight), (0xBD, .minus), (0xBB, .equal), (0xDB, .bracketLeft),
   (0xDD, .bracketRight), (0xDC, .backslash), (0xBA, .semicolon), (0xDE, .quote), (0xC0, .backquote),
   (0xBC, .comma), (0xBE, .period), (0xBF, .slash), (0x60, .numpad0), (0x61, .numpad1), (0x62, .numpad2),
   (0x63, .numpad3), (0x64, .numpad4), (0x65, .numpad5), (0x66, .numpad6), (0x67, .numpad7), (0x68, .numpad8),
   (0x69, .numpad9), (0x6B, .numpadAdd), (0x6D, .numpadSubtract), (0x6A, .numpadMultiply), (0x6F, .numpadDivide),
   (0x6E, .numpadDecimal), (0x2C, .printScreen), (0x91, .scrollLock), (0x13, .pause), (0x90, .numLock),
   (0x5D, .contextMenu)]

/-- Map a Windows virtual-key code (from a hook) to a portable key. -/
def keyForVk (vk : BitVec 16) (extended : Bool) : Key :=
  if vk = 0x0D then if extended then .numpadEnter else .enter
  else (vkKeys.lookup vk).getD (.raw (vk.setWidth 32))

/-! ### There and back -/

/-- Neither a character nor a raw code. -/
def Key.named : Key → Bool
  | .char _ | .raw _ => false
  | _ => true

/-- The virtual-key codes that `key_for_vk` has a key for. -/
def NamedVk (n : ℕ) : Prop :=
  n = 0x08 ∨ n = 0x09 ∨ n = 0x0D ∨ 0x10 ≤ n ∧ n ≤ 0x14 ∨ n = 0x1B ∨ 0x20 ≤ n ∧ n ≤ 0x28 ∨ 0x2C ≤ n ∧ n ≤ 0x2E ∨
    0x30 ≤ n ∧ n ≤ 0x39 ∨ 0x41 ≤ n ∧ n ≤ 0x5D ∨ 0x60 ≤ n ∧ n ≤ 0x6B ∨ 0x6D ≤ n ∧ n ≤ 0x7B ∨ n = 0x90 ∨ n = 0x91 ∨
    0xA0 ≤ n ∧ n ≤ 0xA5 ∨ 0xBA ≤ n ∧ n ≤ 0xC0 ∨ 0xDB ≤ n ∧ n ≤ 0xDE

instance : DecidablePred NamedVk := fun _ => inferInstanceAs (Decidable (_ ∨ _))

theorem vkKeys_named : ∀ entry ∈ vkKeys, entry.2.named = true := by decide

theorem vkKeys_small : ∀ entry ∈ vkKeys, entry.1.toNat < 256 := by decide

theorem mem_codes_small : ∀ n < 256, n ∈ 0x0D :: vkKeys.map (·.1.toNat) ↔ NamedVk n := by decide +kernel

theorem mem_codes_iff (n : ℕ) : n ∈ 0x0D :: vkKeys.map (·.1.toNat) ↔ NamedVk n := by
  by_cases hn : n < 256
  · exact mem_codes_small n hn
  · refine iff_of_false (fun hmem => ?_) (fun hnamed => by unfold NamedVk at hnamed; omega)
    rcases List.mem_cons.mp hmem with rfl | hmem
    · omega
    · obtain ⟨entry, hentry, rfl⟩ := List.mem_map.mp hmem
      exact hn (vkKeys_small entry hentry)

theorem keyForVk_cases (vk : BitVec 16) (extended : Bool) :
    (NamedVk vk.toNat ∧ (keyForVk vk extended).named = true) ∨
      (¬ NamedVk vk.toNat ∧ keyForVk vk extended = .raw (vk.setWidth 32)) := by
  rw [← mem_codes_iff]
  unfold keyForVk
  by_cases henter : vk = 0x0D
  · left
    rw [if_pos henter, henter]
    exact ⟨List.mem_cons_self .., by cases extended <;> rfl⟩
  · have hne : vk.toNat ≠ 0x0D := fun h => henter (BitVec.eq_of_toNat_eq h)
    rw [if_neg henter]
    cases hlook : vkKeys.lookup vk with
    | some key =>
      left
      obtain ⟨front, back, heq, -⟩ := List.lookup_eq_some_iff.mp hlook
      have hmem : (vk, key) ∈ vkKeys := by simp [heq]
      exact ⟨List.mem_cons_of_mem _ (List.mem_map.mpr ⟨_, hmem, rfl⟩), vkKeys_named _ hmem⟩
    | none =>
      right
      refine ⟨fun hmem => ?_, rfl⟩
      obtain ⟨entry, hentry, hcode⟩ := List.mem_map.mp ((List.mem_cons.mp hmem).resolve_left hne)
      have := List.lookup_eq_none_iff.mp hlook entry hentry
      simp [BitVec.eq_of_toNat_eq hcode] at this

theorem keyForVk_of_named {key : Key} (hnamed : key.named = true) {vk : BitVec 16} {extended : Bool}
    (h : vkFor key = .vk vk extended) : keyForVk vk extended = key := by
  cases key with
  | char c => cases hnamed
  | raw n => cases hnamed
  | _ => cases h; rfl

theorem keyForVk_raw_iff (n : BitVec 32) :
    keyForVk (n.setWidth 16) false = .raw n ↔ n.toNat < 65536 ∧ ¬ NamedVk n.toNat := by
  have hlow : (n.setWidth 16).toNat = n.toNat % 65536 := by simp
  rcases keyForVk_cases (n.setWidth 16) false with ⟨hnamed, hkey⟩ | ⟨hnot, hkey⟩
  · constructor
    · intro h
      rw [h] at hkey
      cases hkey
    · rintro ⟨hsmall, hnot⟩
      rw [hlow, Nat.mod_eq_of_lt hsmall] at hnamed
      exact absurd hnamed hnot
  · rw [hkey, Key.raw.injEq]
    have hwide : (BitVec.setWidth 32 (n.setWidth 16)).toNat = n.toNat % 65536 := by
      rw [BitVec.toNat_setWidth, hlow]
      omega
    constructor
    · intro h
      rw [h] at hwide
      have hsmall : n.toNat < 65536 := by omega
      rw [hlow, Nat.mod_eq_of_lt hsmall] at hnot
      exact ⟨hsmall, hnot⟩
    · rintro ⟨hsmall, -⟩
      exact BitVec.eq_of_toNat_eq (by rw [hwide, Nat.mod_eq_of_lt hsmall])

/-- A key comes back from the code that is injected for it, unless it is a raw code that is cut off or has a name. -/
theorem keyForVk_vkFor_iff (key : Key) :
    (∀ vk extended, vkFor key = .vk vk extended → keyForVk vk extended = key) ↔
      ∀ n, key = .raw n → n.toNat < 65536 ∧ ¬ NamedVk n.toNat := by
  cases hkey : key with
  | raw n =>
    constructor
    · rintro h m hm
      obtain rfl := Key.raw.inj hm
      exact (keyForVk_raw_iff n).mp (h _ _ rfl)
    · rintro h vk extended hvk
      cases hvk
      exact (keyForVk_raw_iff n).mpr (h n rfl)
  | char c => exact iff_of_true (by rintro vk extended ⟨⟩) (by rintro n ⟨⟩)
  | _ => exact iff_of_true (fun vk extended hvk => keyForVk_of_named rfl hvk) (by rintro n ⟨⟩)

theorem captured_comes_back (vk : BitVec 16) (extended : Bool) {vk' : BitVec 16} {extended' : Bool}
    (h : vkFor (keyForVk vk extended) = .vk vk' extended') : keyForVk vk' extended' = keyForVk vk extended := by
  rcases keyForVk_cases vk extended with ⟨-, hnamed⟩ | ⟨hnot, hraw⟩
  · exact keyForVk_of_named hnamed h
  · have hwide : (vk.setWidth 32).toNat = vk.toNat := by
      rw [BitVec.toNat_setWidth]
      omega
    rw [hraw] at h ⊢
    cases h
    exact (keyForVk_raw_iff _).mpr ⟨by rw [hwide]; exact vk.isLt, by rwa [hwide]⟩

/-- Code 38, the A key of another system, presses the up arrow; code 0x10041 presses A; code 0x100E8 is sent as another
code. -/
theorem raw_codes_lost :
    ¬ (∀ vk extended, vkFor (.raw 38) = .vk vk extended → keyForVk vk extended = .raw 38) ∧
      keyForVk 38 false = .arrowUp ∧ vkFor (.raw 38) = .vk 38 false ∧
      vkFor (.raw 0x10041) = .vk 0x41 false ∧ keyForVk 0x41 false = .a ∧
      vkFor (.raw 0x100E8) = .vk 0xE8 false ∧ keyForVk 0xE8 false = .raw 0xE8 := by
  refine ⟨fun h => ?_, by decide, by decide, by decide, by decide, by decide, by decide⟩
  exact absurd (h 38 false rfl) (by decide)

end ScreenLink
