import ScreenLink.Lib.CounterNonce
import ScreenLink.Session.Link
import ScreenLink.Session.Threads

/-!
# Nonces over a whole session

Every context that seals, at either end, is an initiator's: the input loop of the controlling end under the session's
key, and each mirror sender of either end under the key derived for video. They all count from 0, so the `seal` calls
of the two ends use different (key, nonce) pairs exactly as long as no second mirror sender, of either end, seals a
chunk (`nonces_unique_iff`). Sharing the screen twice in one session uses the first nonce again
(`restarted_stream_repeats`).
-/

namespace ScreenLink

/-- The key and the nonce of each `seal` call of a channel that has used these numbers. -/
def RealtimeCrypto.sealCalls (rt : RealtimeCrypto) (sealed : List (BitVec 64)) : List (SessionKey × Bytes) :=
  sealed.map fun seq => (rt.cipher, nonce rt.sendSalt seq)

/-- The channel is an initiator's, and has used the numbers from 0 on. -/
structure Counted (key : SessionKey) (rt : RealtimeCrypto) (sealed : List (BitVec 64)) : Prop where
  cipher : rt.cipher = key
  salt : rt.sendSalt = SALT_INITIATOR
  seq : rt.sendSeq = BitVec.ofNat 64 sealed.length
  numbers : sealed = CounterNonce.numbers 64 sealed.length

theorem counted_new (key : SessionKey) (epoch : BitVec 64) : Counted key (.new key epoch true) [] :=
  ⟨rfl, rfl, rfl, rfl⟩

theorem counted_seal (x : Crates) (key : SessionKey) : KeptBySeal x (Counted key) := by
  intro rt sealed payload h
  rw [RealtimeCrypto.seal_fst]
  refine ⟨h.cipher, h.salt, ?_, ?_⟩
  · rw [List.length_append, List.length_singleton, h.seq]
    simp [BitVec.ofNat_add]
  · rw [List.length_append, List.length_singleton, CounterNonce.numbers_succ, ← h.numbers, h.seq]

/-- An initiator's nonce for a number of a key's stream. -/
def initiatorNonce (use : SessionKey × BitVec 64) : SessionKey × Bytes :=
  (use.1, RealtimeCrypto.nonce SALT_INITIATOR use.2)

theorem initiatorNonce_injective : Function.Injective initiatorNonce := by
  rintro ⟨key, v⟩ ⟨key', v'⟩ heq
  obtain ⟨hkey, hnonce⟩ := Prod.mk.inj heq
  exact Prod.ext hkey (beBytes_inj (List.append_cancel_left hnonce))

theorem Counted.sealCalls {key : SessionKey} {rt : RealtimeCrypto} {sealed : List (BitVec 64)}
    (h : Counted key rt sealed) :
    rt.sealCalls sealed = (CounterNonce.uses 64 (key, sealed.length)).map initiatorNonce := by
  rw [RealtimeCrypto.sealCalls, h.cipher, h.salt, CounterNonce.uses, ← h.numbers, List.map_map]
  rfl

/-! ### One end -/

namespace Session

/-- The `seal` calls of the input loop and the mirror senders. -/
def sealCalls (s : Session) : List (SessionKey × Bytes) :=
  (s.host.toList.flatMap fun h => h.input.rt.sealCalls h.input.sealed) ++
    s.senders.flatMap fun t => t.rt.sealCalls t.sealed

/-- Fewer than `2^64` `seal` calls by each context. -/
def Few (s : Session) : Prop :=
  (∀ h ∈ s.host, h.input.sealed.length < 2 ^ 64) ∧ ∀ t ∈ s.senders, t.sealed.length < 2 ^ 64

instance (s : Session) : Decidable s.Few := inferInstanceAs (Decidable (_ ∧ _))

variable {x : Crates} {ar : Arith} {core : AppCore x} {s : Session} {event : SessionEvent} {p : AppCore x × Session}

/-- Every context counts its own numbers, and only a controller in its main loop, or beyond, has an input loop. -/
structure ThreadsInv (x : Crates) (s : Session) : Prop where
  started : s.phase.started = false → s.host = none
  host : ∀ h ∈ s.host, Counted s.key h.input.rt h.input.sealed ∧ s.role ≠ .controlled
  senders : ∀ t ∈ s.senders, Counted (s.videoKey x) t.rt t.sealed

theorem threadsInv_new (role : Role) (ip : IpAddr) (key : SessionKey) (cert : Bytes) :
    ThreadsInv x (.new role ip key cert) :=
  ⟨fun _ => rfl, fun _ h => (nomatch h), fun _ h => (nomatch h)⟩

theorem HostMove.inv {phase : Phase} {host : Option HostThread} (h : HostMove x ar s phase host)
    (hinv : ThreadsInv x s) :
    ∀ t ∈ host, Counted s.key t.input.rt t.input.sealed ∧ s.role ≠ .controlled := by
  intro t ht
  cases h with
  | same => exact hinv.host t ht
  | started peerIp edge epoch desktop info hrole hs =>
    cases ht
    exact ⟨counted_new s.key epoch, by rw [hrole]; exact nofun⟩
  | kept phase g g' hg hinput =>
    cases ht
    rw [hinput.1, hinput.2]
    exact hinv.host g hg
  | iterated phase g tick hg =>
    cases ht
    obtain ⟨hcounted, hrole⟩ := hinv.host g hg
    exact ⟨hostIter_seals (counted_seal x s.key) ar g.desktop g.input tick hcounted, hrole⟩

theorem HostMove.eq_none {phase : Phase} {host : Option HostThread} (h : HostMove x ar s phase host)
    (hnone : s.host = none) (hphase : phase.started = false) : host = none := by
  cases h with
  | same => exact hnone
  | started => cases hphase
  | kept phase g g' hg => rw [hnone] at hg; cases hg
  | iterated phase g tick hg => rw [hnone] at hg; cases hg

theorem SendersMove.inv {senders : List MirrorSender} (h : SendersMove x s event senders) (hinv : ThreadsInv x s) :
    ∀ t ∈ senders, Counted (s.videoKey x) t.rt t.sealed := by
  intro t ht
  cases h with
  | same => exact hinv.senders t ht
  | halted i =>
    obtain ⟨k, hk⟩ := List.mem_iff_getElem?.mp ht
    rw [List.getElem?_modify, Option.map_eq_map, Option.map_eq_some_iff] at hk
    obtain ⟨t₀, ht₀, rfl⟩ := hk
    have hcounted := hinv.senders t₀ (List.mem_of_getElem? ht₀)
    split_ifs <;> exact hcounted
  | spawned epoch =>
    rcases List.mem_append.mp ht with hold | hnew
    · exact hinv.senders t hold
    · rw [List.mem_singleton.mp hnew]
      exact counted_new _ epoch
  | stepped i ev u u' hevent hu hstep =>
    rcases List.mem_or_eq_of_mem_set ht with hold | rfl
    · exact hinv.senders t hold
    · have hcounted := hinv.senders u (List.mem_of_getElem? hu)
      rcases MirrorSender.step_seals hstep with ⟨-, payload, hrt, hsealed⟩ | ⟨-, hrt, hsealed⟩
      · rw [hrt, hsealed]
        exact counted_seal x _ u.rt u.sealed payload hcounted
      · rwa [hrt, hsealed]

theorem step_threadsInv (h : s.step ar core event = some p) (hinv : ThreadsInv x s) : ThreadsInv x p.2 := by
  obtain ⟨hrole, hkey, -⟩ := step_const h
  constructor
  · intro hafter
    have hbefore : s.phase.started = false := by
      by_contra hwas
      rw [Bool.not_eq_false] at hwas
      exact Bool.noConfusion ((Phase.started_of_moves (step_moves h) hwas).symm.trans hafter)
    exact (host_of_step h).eq_none (hinv.started hbefore) hafter
  · rw [hrole, hkey]
    exact (host_of_step h).inv hinv
  · have hvideo : p.2.videoKey x = s.videoKey x := by rw [videoKey, videoKey, hkey]
    rw [hvideo]
    exact (senders_of_step h).inv hinv

/-! ### Contexts are never dropped -/

theorem HostMove.length_le {phase : Phase} {host : Option HostThread} (h : HostMove x ar s phase host)
    (hstarted : s.phase.started = false → s.host = none) {t : HostThread} (ht : s.host = some t) :
    ∃ t' ∈ host, t.input.sealed.length ≤ t'.input.sealed.length := by
  cases h with
  | same => exact ⟨t, ht, le_refl _⟩
  | started peerIp edge epoch desktop info hrole hs =>
    rw [hstarted (by rw [hs]; rfl)] at ht
    cases ht
  | kept phase g g' hg hinput =>
    obtain rfl : t = g := Option.some.inj (ht.symm.trans hg)
    exact ⟨g', rfl, by rw [hinput.2]⟩
  | iterated phase g tick hg =>
    obtain rfl : t = g := Option.some.inj (ht.symm.trans hg)
    refine ⟨_, rfl, ?_⟩
    refine hostIter_seals (P := fun _ sealed => t.input.sealed.length ≤ sealed.length) ?_ ar t.desktop t.input tick
      (le_refl _)
    intro rt sealed payload hle
    rw [List.length_append]
    omega

theorem SendersMove.length_le {senders : List MirrorSender} (h : SendersMove x s event senders) {i : ℕ}
    {t : MirrorSender} (ht : s.senders[i]? = some t) :
    ∃ t', senders[i]? = some t' ∧ t.sealed.length ≤ t'.sealed.length := by
  have hlt := (List.getElem?_eq_some_iff.mp ht).1
  cases h with
  | same => exact ⟨t, ht, le_refl _⟩
  | halted k =>
    rw [List.getElem?_modify, ht]
    refine ⟨_, rfl, ?_⟩
    split_ifs <;> exact le_refl t.sealed.length
  | spawned epoch => exact ⟨t, by rw [List.getElem?_append_left hlt, ht], le_refl _⟩
  | stepped k ev u u' hevent hu hstep =>
    rw [List.getElem?_set]
    by_cases hki : k = i
    · subst hki
      obtain rfl : t = u := Option.some.inj (ht.symm.trans hu)
      refine ⟨u', by simp [hlt], ?_⟩
      rcases MirrorSender.step_seals hstep with ⟨-, payload, -, hsealed⟩ | ⟨-, -, hsealed⟩ <;> simp [hsealed]
    · exact ⟨t, by rw [if_neg hki, ht], le_refl _⟩

theorem few_of_step (h : s.step ar core event = some p) (hinv : ThreadsInv x s) (hfew : p.2.Few) : s.Few := by
  constructor
  · intro t ht
    obtain ⟨t', ht', hle⟩ := (host_of_step h).length_le hinv.started ht
    exact hle.trans_lt (hfew.1 t' ht')
  · intro t ht
    obtain ⟨i, hi⟩ := List.mem_iff_getElem?.mp ht
    obtain ⟨t', ht', hle⟩ := (senders_of_step h).length_le hi
    exact hle.trans_lt (hfew.2 t' (List.mem_of_getElem? ht'))

/-! ### Which senders have sealed -/

theorem SendersMove.used {senders : List MirrorSender} (h : SendersMove x s event senders) {i : ℕ}
    {t' : MirrorSender} (ht' : senders[i]? = some t') (hused : t'.sealed ≠ []) :
    (∃ t, s.senders[i]? = some t ∧ t.sealed ≠ []) ∨
      ∃ t ev, event = .sender i ev ∧ s.senders[i]? = some t ∧ t.seals x ev := by
  cases h with
  | same => exact Or.inl ⟨t', ht', hused⟩
  | halted k =>
    rw [List.getElem?_modify, Option.map_eq_map, Option.map_eq_some_iff] at ht'
    obtain ⟨t, ht, rfl⟩ := ht'
    refine Or.inl ⟨t, ht, ?_⟩
    split_ifs at hused <;> exact hused
  | spawned epoch =>
    rw [List.getElem?_append] at ht'
    split_ifs at ht' with hlt
    · exact Or.inl ⟨t', ht', hused⟩
    · rw [List.mem_singleton.mp (List.mem_of_getElem? ht')] at hused
      exact absurd rfl hused
  | stepped k ev u u' hevent hu hstep =>
    rw [List.getElem?_set] at ht'
    split_ifs at ht' with hki hlt
    · subst hki
      cases ht'
      rcases MirrorSender.step_seals hstep with ⟨hseals, -⟩ | ⟨-, -, hsealed⟩
      · exact Or.inr ⟨u, ev, hevent, hu, hseals⟩
      · exact Or.inl ⟨u, hu, hsealed ▸ hused⟩
    · exact Or.inl ⟨t', ht', hused⟩

/-- The sender that seals a chunk has sealed. -/
theorem step_seals {i : ℕ} {ev : SenderEvent} {t : MirrorSender} (h : s.step ar core (.sender i ev) = some p)
    (ht : s.senders[i]? = some t) (hseals : t.seals x ev) : ∃ t', p.2.senders[i]? = some t' ∧ t'.sealed ≠ [] := by
  cases steps_of_step h with
  | sender _ _ u u' hu hstep =>
    obtain rfl : t = u := Option.some.inj (ht.symm.trans hu)
    refine ⟨u', by simp [(List.getElem?_eq_some_iff.mp ht).1], ?_⟩
    rcases MirrorSender.step_seals hstep with ⟨-, payload, -, hsealed⟩ | ⟨hnot, -⟩
    · simp [hsealed]
    · exact absurd hseals hnot

/-! ### Streams -/

/-- The stream of each context, and how many numbers it has used. -/
def contexts (x : Crates) (s : Session) : List (SessionKey × ℕ) :=
  (s.host.toList.map fun h => (s.key, h.input.sealed.length)) ++
    s.senders.map fun t => (s.videoKey x, t.sealed.length)

theorem sealCalls_eq (h : ThreadsInv x s) :
    s.sealCalls = ((s.contexts x).flatMap (CounterNonce.uses 64)).map initiatorNonce := by
  have hsenders : ∀ ts : List MirrorSender, (∀ t ∈ ts, Counted (s.videoKey x) t.rt t.sealed) →
      (ts.flatMap fun t => t.rt.sealCalls t.sealed) =
        ((ts.map fun t => (s.videoKey x, t.sealed.length)).flatMap (CounterNonce.uses 64)).map initiatorNonce := by
    intro ts hts
    induction ts with
    | nil => rfl
    | cons t ts ih =>
      rw [List.flatMap_cons, (hts t List.mem_cons_self).sealCalls, ih fun u hu => hts u (List.mem_cons_of_mem t hu)]
      simp
  have hhost : (s.host.toList.flatMap fun h => h.input.rt.sealCalls h.input.sealed) =
      ((s.host.toList.map fun h => (s.key, h.input.sealed.length)).flatMap (CounterNonce.uses 64)).map
        initiatorNonce := by
    cases hh : s.host with
    | none => rfl
    | some t => simp [(h.host t hh).1.sealCalls]
  rw [sealCalls, hhost, hsenders s.senders h.senders, contexts, List.flatMap_append, List.map_append]

theorem few_contexts (h : s.Few) : ∀ c ∈ s.contexts x, c.2 ≤ 2 ^ 64 := by
  intro c hc
  rcases List.mem_append.mp hc with hhost | hsender
  · obtain ⟨t, ht, rfl⟩ := List.mem_map.mp hhost
    exact (h.1 t (Option.mem_toList.mp ht)).le
  · obtain ⟨t, ht, rfl⟩ := List.mem_map.mp hsender
    exact (h.2 t ht).le

end Session

namespace Link

open Machine

variable {x : Crates} {ar : Arith} {l l' : Link x} {e : LinkEvent}

/-! ### Both ends -/

/-- The `seal` calls of the two ends. -/
def sealCalls (l : Link x) : List (SessionKey × Bytes) := (l.session .a).sealCalls ++ (l.session .b).sealCalls

/-- A mirror sender, by its end and its place there. -/
def sender? (l : Link x) (q : Side × ℕ) : Option MirrorSender := (l.session q.1).senders[q.2]?

/-- At most one sender of the two ends has sealed. -/
def OneStream (l : Link x) : Prop :=
  ∀ q r t u, l.sender? q = some t → l.sender? r = some u → t.sealed ≠ [] → u.sealed ≠ [] → q = r

/-- A mirror sender seals a chunk while another one of the session, of either end, has sealed before. -/
def SecondStream (l : Link x) (e : LinkEvent) : Prop :=
  ∃ q ev t, e = .act q.1 (.sender q.2 ev) ∧ l.sender? q = some t ∧ t.seals x ev ∧
    ∃ r u, r ≠ q ∧ l.sender? r = some u ∧ u.rt.sendSeq ≠ 0

/-- What the sessions of one connection keep. -/
structure ThreadsInv (key : SessionKey) (l : Link x) : Prop where
  side : ∀ side, (l.session side).ThreadsInv x ∧ (l.session side).key = key
  controlled : (l.session .b).role = .controlled

theorem threadsInv_initial (core : Side → AppCore x) (ip : IpAddr) (edge : ScreenEdge) (peer : IpAddr)
    (key : SessionKey) : ThreadsInv key (initial core ip edge peer key) where
  side side := by
    cases side <;> exact ⟨Session.threadsInv_new _ _ _ _, rfl⟩
  controlled := rfl

theorem step_threadsInv {key : SessionKey} (hstep : step ar l e = some l') (h : ThreadsInv key l) :
    ThreadsInv key l' := by
  cases hacts : l.acts e with
  | none =>
    obtain ⟨-, rfl⟩ := eq_breaks_of_idle hstep hacts
    exact ⟨h.side, h.controlled⟩
  | some act =>
    obtain ⟨side, event⟩ := act
    obtain ⟨p, hp, -, hsession, -, hother, -⟩ := step_of_acts hstep hacts
    obtain ⟨hrole, hkey, -⟩ := Session.step_const hp
    have hkept : ∀ s, (l'.session s).ThreadsInv x ∧ (l'.session s).key = key ∧
        (l'.session s).role = (l.session s).role := by
      intro s
      rcases Side.eq_or_eq_other side s with rfl | rfl
      · rw [hsession]
        exact ⟨Session.step_threadsInv hp (h.side s).1, hkey.trans (h.side s).2, hrole⟩
      · rw [hother]
        obtain ⟨hinv, hkey⟩ := h.side side.other
        exact ⟨⟨hinv.started, hinv.host, hinv.senders⟩, hkey, rfl⟩
    exact ⟨fun s => ⟨(hkept s).1, (hkept s).2.1⟩, (hkept .b).2.2.trans h.controlled⟩

theorem oneStream_iff (l : Link x) :
    l.OneStream ↔ ((l.session .a).senders ++ (l.session .b).senders).Pairwise
      fun t u => t.sealed = [] ∨ u.sealed = [] := by
  rw [List.pairwise_append, CounterNonce.pairwise_or_iff, CounterNonce.pairwise_or_iff]
  constructor
  · intro h
    refine ⟨fun i j t u ht hu hnt hnu => ?_, fun i j t u ht hu hnt hnu => ?_, fun t ht u hu => ?_⟩
    · exact (Prod.mk.inj (h (.a, i) (.a, j) t u ht hu hnt hnu)).2
    · exact (Prod.mk.inj (h (.b, i) (.b, j) t u ht hu hnt hnu)).2
    · obtain ⟨i, hi⟩ := List.mem_iff_getElem?.mp ht
      obtain ⟨j, hj⟩ := List.mem_iff_getElem?.mp hu
      by_contra hboth
      obtain ⟨hnt, hnu⟩ := not_or.mp hboth
      cases h (.a, i) (.b, j) t u hi hj hnt hnu
  · rintro ⟨ha, hb, hcross⟩ ⟨side, i⟩ ⟨side', j⟩ t u ht hu hnt hnu
    have hboth : ∀ t u, t ∈ (l.session .a).senders → u ∈ (l.session .b).senders → t.sealed ≠ [] → u.sealed ≠ [] →
        False := fun t u ht hu hnt hnu => (hcross t ht u hu).elim hnt hnu
    cases side with
    | a =>
      cases side' with
      | a => rw [ha i j t u ht hu hnt hnu]
      | b => exact (hboth t u (List.mem_of_getElem? ht) (List.mem_of_getElem? hu) hnt hnu).elim
    | b =>
      cases side' with
      | a => exact (hboth u t (List.mem_of_getElem? hu) (List.mem_of_getElem? ht) hnu hnt).elim
      | b => rw [hb i j t u ht hu hnt hnu]

/-- The `seal` calls of the two ends are different if and only if at most one mirror sender has sealed. -/
theorem nodup_sealCalls_iff {key : SessionKey} (hkey : deriveSubkey x key (asBytes "video") ≠ key)
    (hinv : ThreadsInv key l) (hfew : ∀ side, (l.session side).Few) : l.sealCalls.Nodup ↔ l.OneStream := by
  have hkeys := fun side => (hinv.side side).2
  have hvideo : ∀ side, (l.session side).videoKey x = deriveSubkey x key (asBytes "video") := by
    intro side
    rw [Session.videoKey, hkeys]
  have hnohost : (l.session .b).host = none := by
    cases hhost : (l.session .b).host with
    | none => rfl
    | some t => exact absurd hinv.controlled ((hinv.side .b).1.host t hhost).2
  rw [sealCalls, Session.sealCalls_eq (hinv.side .a).1, Session.sealCalls_eq (hinv.side .b).1, ← List.map_append,
    ← List.flatMap_append, List.nodup_map_iff initiatorNonce_injective, CounterNonce.nodup_flatMap_uses,
    oneStream_iff]
  · have hcontexts : (l.session .a).contexts x ++ (l.session .b).contexts x =
        ((l.session .a).host.toList.map fun t => (key, t.input.sealed.length)) ++
          ((l.session .a).senders ++ (l.session .b).senders).map fun t =>
            (deriveSubkey x key (asBytes "video"), t.sealed.length) := by
      simp [Session.contexts, hkeys, hvideo, hnohost]
    rw [hcontexts, List.pairwise_append, List.pairwise_map, List.pairwise_map]
    simp only [forall_const, List.length_eq_zero_iff]
    refine ⟨fun h => h.2.1, fun h => ⟨?_, h, fun c hc d hd heq => ?_⟩⟩
    · cases (l.session .a).host <;> simp
    · -- the input loop has its own key
      obtain ⟨t, -, rfl⟩ := List.mem_map.mp hc
      obtain ⟨u, -, rfl⟩ := List.mem_map.mp hd
      exact absurd heq.symm hkey
  · intro c hc
    exact (List.mem_append.mp hc).elim (Session.few_contexts (hfew .a) c) (Session.few_contexts (hfew .b) c)

/-! ### Runs -/

theorem used_of_step (hstep : step ar l e = some l') {q : Side × ℕ} {t' : MirrorSender}
    (ht' : l'.sender? q = some t') (hused : t'.sealed ≠ []) :
    (∃ t, l.sender? q = some t ∧ t.sealed ≠ []) ∨
      ∃ ev t, e = .act q.1 (.sender q.2 ev) ∧ l.sender? q = some t ∧ t.seals x ev := by
  cases hacts : l.acts e with
  | none =>
    obtain ⟨-, rfl⟩ := eq_breaks_of_idle hstep hacts
    exact Or.inl ⟨t', ht', hused⟩
  | some act =>
    obtain ⟨side, event⟩ := act
    obtain ⟨p, hp, -, hsession, -, hother, -⟩ := step_of_acts hstep hacts
    obtain ⟨side', i⟩ := q
    rcases Side.eq_or_eq_other side side' with rfl | rfl
    · rw [sender?, hsession] at ht'
      rcases (Session.senders_of_step hp).used ht' hused with hold | ⟨t, ev, rfl, ht, hseals⟩
      · exact Or.inl hold
      · exact Or.inr ⟨ev, t, eq_act_of_acts hacts rfl, ht, hseals⟩
    · rw [sender?, hother] at ht'
      exact Or.inl ⟨t', ht', hused⟩

theorem stays_of_step (hstep : step ar l e = some l') {q : Side × ℕ} {t : MirrorSender}
    (ht : l.sender? q = some t) : ∃ t', l'.sender? q = some t' ∧ t.sealed.length ≤ t'.sealed.length := by
  cases hacts : l.acts e with
  | none =>
    obtain ⟨-, rfl⟩ := eq_breaks_of_idle hstep hacts
    exact ⟨t, ht, le_refl _⟩
  | some act =>
    obtain ⟨side, event⟩ := act
    obtain ⟨p, hp, -, hsession, -, hother, -⟩ := step_of_acts hstep hacts
    obtain ⟨side', i⟩ := q
    rcases Side.eq_or_eq_other side side' with rfl | rfl
    · rw [sender?, hsession]
      exact (Session.senders_of_step hp).length_le ht
    · rw [sender?, hother]
      exact ⟨t, ht, le_refl _⟩

theorem stays_of_run {es : List LinkEvent} (hrun : run (step ar) l es = some l') {q : Side × ℕ} {t : MirrorSender}
    (ht : l.sender? q = some t) : (l'.sender? q).isSome := by
  induction es generalizing l t with
  | nil =>
    cases hrun
    rw [ht]
    rfl
  | cons e es ih =>
    obtain ⟨l₁, hstep, hrest⟩ := Option.bind_eq_some_iff.mp hrun
    obtain ⟨t', ht', -⟩ := stays_of_step hstep ht
    exact ih hrest ht'

theorem used_iff {key : SessionKey} (hinv : ThreadsInv key l) (hfew : ∀ side, (l.session side).Few)
    {q : Side × ℕ} {t : MirrorSender} (ht : l.sender? q = some t) : t.rt.sendSeq ≠ 0 ↔ t.sealed ≠ [] := by
  have hmem := List.mem_of_getElem? ht
  have hlt := (hfew q.1).2 t hmem
  rw [((hinv.side q.1).1.senders t hmem).seq, not_iff_not, ← List.length_eq_zero_iff]
  constructor
  · intro h
    have := congrArg BitVec.toNat h
    rwa [BitVec.toNat_ofNat, Nat.mod_eq_of_lt hlt] at this
  · intro h
    rw [h]
    rfl

theorem few_of_step {key : SessionKey} (hstep : step ar l e = some l') (hinv : ThreadsInv key l)
    (hfew : ∀ side, (l'.session side).Few) (side : Side) : (l.session side).Few := by
  cases hacts : l.acts e with
  | none =>
    obtain ⟨-, rfl⟩ := eq_breaks_of_idle hstep hacts
    exact hfew side
  | some act =>
    obtain ⟨side', event⟩ := act
    obtain ⟨p, hp, -, hsession, -, hother, -⟩ := step_of_acts hstep hacts
    have hfew' := hfew side
    rcases Side.eq_or_eq_other side' side with rfl | rfl
    · rw [hsession] at hfew'
      exact Session.few_of_step hp (hinv.side side).1 hfew'
    · rw [hother] at hfew'
      exact hfew'

theorem few_of_run {key : SessionKey} (hinv : ThreadsInv key l) {es : List LinkEvent}
    (hrun : run (step ar) l es = some l') (hfew : ∀ side, (l'.session side).Few) :
    ∀ side, (l.session side).Few := by
  induction es generalizing l with
  | nil =>
    cases hrun
    exact hfew
  | cons e es ih =>
    obtain ⟨l₁, hstep, hrest⟩ := Option.bind_eq_some_iff.mp hrun
    exact few_of_step hstep hinv (ih (step_threadsInv hstep hinv) hrest)

theorem step_oneStream {key : SessionKey} (hinv : ThreadsInv key l) (hfew : ∀ side, (l.session side).Few)
    (h : l.OneStream) (hnot : ¬ SecondStream l e) (hstep : step ar l e = some l') : l'.OneStream := by
  intro q r t' u' ht' hu' hnt hnu
  by_contra hne
  rcases used_of_step hstep ht' hnt with ⟨t, ht, htused⟩ | ⟨ev, t, rfl, ht, hseals⟩
  · rcases used_of_step hstep hu' hnu with ⟨u, hu, huused⟩ | ⟨ev, u, rfl, hu, hseals⟩
    · exact hne (h q r t u ht hu htused huused)
    · exact hnot ⟨r, ev, u, rfl, hu, hseals, q, t, hne, ht, (used_iff hinv hfew ht).mpr htused⟩
  · rcases used_of_step hstep hu' hnu with ⟨u, hu, huused⟩ | ⟨ev', u, heq, hu, -⟩
    · exact hnot ⟨q, ev, t, rfl, ht, hseals, r, u, Ne.symm hne, hu, (used_iff hinv hfew hu).mpr huused⟩
    · -- one step is one sender's
      simp only [LinkEvent.act.injEq, SessionEvent.sender.injEq] at heq
      exact hne (Prod.ext heq.1 heq.2.1)

theorem not_oneStream_of_second {key : SessionKey} (hinv : ThreadsInv key l)
    (hfew : ∀ side, (l.session side).Few) (hsecond : SecondStream l e) (hstep : step ar l e = some l') :
    ¬ l'.OneStream := by
  obtain ⟨q, ev, t, rfl, ht, hseals, r, u, hne, hu, hseq⟩ := hsecond
  obtain ⟨p, hp, -, hsession, -⟩ := step_of_acts (e := .act q.1 (.sender q.2 ev)) hstep rfl
  obtain ⟨t', ht', htused⟩ := Session.step_seals hp ht hseals
  obtain ⟨u', hu', hle⟩ := stays_of_step hstep hu
  have huused : u'.sealed ≠ [] := by
    have hused := (used_iff hinv hfew hu).mp hseq
    rw [← List.length_pos_iff] at hused ⊢
    exact hused.trans_le hle
  intro h
  exact hne (h r q u' t' hu' (by rw [sender?, hsession, ht']) huused htused)

/-- In every run of the two ends of a connection, with fewer than `2^64` `seal` calls by each context and a video key
that differs from the session's: no two `seal` calls use the same key and nonce, throughout the run, if and only if no
mirror sender of either end seals a chunk when another one of the session has sealed before. -/
theorem nonces_unique_iff {core : Side → AppCore x} {ip peer : IpAddr} {edge : ScreenEdge} {key : SessionKey}
    {es : List LinkEvent} {l : Link x} (hkey : deriveSubkey x key (asBytes "video") ≠ key)
    (hrun : run (step ar) (initial core ip edge peer key) es = some l) (hfew : ∀ side, (l.session side).Few) :
    (∀ es₁ es₂ l₁, es = es₁ ++ es₂ → run (step ar) (initial core ip edge peer key) es₁ = some l₁ →
      l₁.sealCalls.Nodup) ↔ ¬ Seen (step ar) SecondStream (initial core ip edge peer key) es := by
  have hinv : ∀ es l, run (step ar) (initial core ip edge peer key) es = some l → ThreadsInv key l :=
    run_invariant (threadsInv_initial core ip edge peer key) fun _ _ _ h hstep => step_threadsInv hstep h
  have hfew₁ : ∀ es₁ es₂ l₁, es = es₁ ++ es₂ → run (step ar) (initial core ip edge peer key) es₁ = some l₁ →
      ∀ side, (l₁.session side).Few := by
    rintro es₁ es₂ l₁ rfl hl₁
    obtain ⟨l₁', hl₁', hrest⟩ := (run_append_eq_some _).mp hrun
    obtain rfl : l₁ = l₁' := Option.some.inj (hl₁.symm.trans hl₁')
    exact few_of_run (hinv es₁ l₁ hl₁) hrest hfew
  constructor
  · rintro hnodup ⟨es₁, e, es₂, l₁, rfl, hl₁, hsecond⟩
    obtain ⟨l₁', hl₁', hrest⟩ := (run_append_eq_some _).mp hrun
    obtain rfl : l₁ = l₁' := Option.some.inj (hl₁.symm.trans hl₁')
    obtain ⟨l₂, hstep, -⟩ := Option.bind_eq_some_iff.mp hrest
    have hl₂ := (run_snoc_eq_some _).mpr ⟨l₁, hl₁, hstep⟩
    have hsplit : es₁ ++ e :: es₂ = es₁ ++ [e] ++ es₂ := by simp
    exact not_oneStream_of_second (hinv es₁ l₁ hl₁) (hfew₁ es₁ (e :: es₂) l₁ rfl hl₁) hsecond hstep
      ((nodup_sealCalls_iff hkey (hinv _ l₂ hl₂) (hfew₁ _ es₂ l₂ hsplit hl₂)).mp (hnodup _ es₂ l₂ hsplit hl₂))
  · intro hnot es₁ es₂ l₁ hes hl₁
    rw [nodup_sealCalls_iff hkey (hinv es₁ l₁ hl₁) (hfew₁ es₁ es₂ l₁ hes hl₁)]
    have hall : ∀ es₁ l₁, run (step ar) (initial core ip edge peer key) es₁ = some l₁ →
        ∀ es₂, es = es₁ ++ es₂ → l₁.OneStream := by
      apply run_induction
      · intro es₂ _ q r t u ht
        obtain ⟨side, i⟩ := q
        cases side <;> cases ht
      · intro es₁ t e u ht ih hstep es₂ hes
        have hes' : es = es₁ ++ e :: es₂ := by simp [hes]
        refine step_oneStream (hinv es₁ t ht) (hfew₁ es₁ (e :: es₂) t hes' ht) (ih (e :: es₂) hes') ?_ hstep
        exact fun hsecond => hnot ⟨es₁, e, es₂, t, hes', ht, hsecond⟩
    exact hall es₁ l₁ hl₁ es₂ hes

/-! ### Sharing the screen twice -/

/-- Alice and Bob, who have paired. -/
def pairedCores : Side → AppCore demoCrates
  | .a => demoCore certAlice "alice" [fpBob]
  | .b => demoCore certBob "bob" [fpAlice]

def aliceAndBob : Link demoCrates :=
  initial pairedCores (.v4 0x0A000002) .right (.v4 0x0A000003) demoKey

/-- Alice connects to Bob and comes to its main loop. -/
def aliceStarts : List LinkEvent :=
  [.act .a .sayHello, .act .b .sayHello, .deliver .a, .act .a .setSlot, .act .a .checkTrust,
    .act .a (.wire 1 ⟨0, 0, 1920, 1080⟩ none)]

/-- Alice shares its screen: stream `i` sends one frame, of one chunk, and is stopped. -/
def aliceShares (i : ℕ) (epoch : BitVec 64) (data : Bytes) : List LinkEvent :=
  [.act .a (.cmd .startMirror epoch), .act .a (.sender i (.head (.encoded true data))), .act .a (.sender i .chunk),
    .act .a (.sender i .chunk), .act .a (.cmd .stopMirror 0)]

/-- The second stream's first chunk is sealed with the key and nonce of the first one's. -/
theorem restarted_stream_repeats :
    ∃ l, run (step .exact) aliceAndBob (aliceStarts ++ aliceShares 0 5 [1, 2, 3] ++ aliceShares 1 6 [4, 5, 6]) = some l ∧
      deriveSubkey demoCrates demoKey (asBytes "video") ≠ demoKey ∧ (∀ side, (l.session side).Few) ∧
      (l.session .a).senders.map (fun t => t.out.length) = [1, 1] ∧ ¬ l.sealCalls.Nodup := by
  obtain ⟨l, hrun, ha, hb, hsent, hreused⟩ : ∃ l,
      run (step .exact) aliceAndBob (aliceStarts ++ aliceShares 0 5 [1, 2, 3] ++ aliceShares 1 6 [4, 5, 6]) = some l ∧
      (l.session .a).Few ∧ (l.session .b).Few ∧
      (l.session .a).senders.map (fun t => t.out.length) = [1, 1] ∧ ¬ l.sealCalls.Nodup :=
    exists_run (by decide +kernel)
  refine ⟨l, hrun, by decide +kernel, fun side => ?_, hsent, hreused⟩
  cases side
  · exact ha
  · exact hb

/-- The key derived for video. -/
def streamKey : SessionKey := (demoDigests.getLast?.map Prod.snd).getD (Vector.replicate 32 0)

/-- ChaCha20-Poly1305 on the packets of an input loop with epoch 1 that relays the left Shift key three times, and of a
stream with epoch 5 that sends two frames. -/
def sharingPackets : List ((SessionKey × Bytes × Bytes × Bytes) × Bytes) :=
  [((demoKey, RealtimeCrypto.nonce SALT_INITIATOR 0, [4, 50, 1], beBytes 1),
      [212, 165, 122, 63, 129, 234, 54, 109, 169, 6, 135, 252, 211, 172, 143, 120, 91, 75, 244]),
    ((demoKey, RealtimeCrypto.nonce SALT_INITIATOR 1, [4, 50, 1], beBytes 1),
      [48, 24, 170, 98, 6, 166, 206, 108, 207, 77, 160, 224, 207, 37, 244, 201, 23, 125, 170]),
    ((demoKey, RealtimeCrypto.nonce SALT_INITIATOR 2, [4, 50, 1], beBytes 1),
      [131, 118, 34, 202, 141, 20, 14, 92, 108, 96, 93, 111, 82, 58, 11, 206, 250, 103, 190]),
    ((streamKey, RealtimeCrypto.nonce SALT_INITIATOR 0, [0, 0, 1, 1, 3, 1, 2, 3], beBytes 5),
      [45, 88, 163, 37, 117, 19, 186, 70, 176, 20, 195, 219, 69, 202, 116, 132, 159, 18, 28, 201, 162, 104, 121, 156]),
    ((streamKey, RealtimeCrypto.nonce SALT_INITIATOR 1, [1, 0, 1, 1, 3, 4, 5, 6], beBytes 5),
      [44, 243, 130, 185, 194, 123, 189, 222, 132, 178, 185, 129, 144, 71, 170, 136, 234, 137, 91, 190, 244, 19, 125,
        205])]

def sharingCrates : Crates :=
  { demoCrates with
    aead := { demoAead with encrypt := fun key nonce msg aad => sharingPackets.lookup (key, nonce, msg, aad) }
    encodeInput := fun ev => if ev = .key .shiftLeft true then some [4, 50, 1] else none }

/-- Alice and Bob, with these functions. -/
def sharingLink : Link sharingCrates :=
  initial (fun side => (pairedCores side).over sharingCrates) (.v4 0x0A000002) .right (.v4 0x0A000003) demoKey

/-- Alice shares two frames with one stream; between them the cursor crosses while Shift is held. -/
def sharesAndCrosses : List LinkEvent :=
  aliceStarts ++ [.act .a (.cmd .startMirror 5), .act .a (.sender 0 (.head (.encoded true [1, 2, 3]))),
    .act .a (.sender 0 .chunk), .act .a (.sender 0 .chunk),
    .act .a (.host .right (some (.input (.key .shiftLeft true))) .right),
    .act .a (.host .right (some (.move 5 0 1919 540)) .right), .act .a (.sender 0 (.head (.encoded true [4, 5, 6]))),
    .act .a (.sender 0 .chunk), .act .a (.sender 0 .chunk)]

theorem nonces_unique_iff_once :
    ∃ l, run (step .exact) sharingLink sharesAndCrosses = some l ∧
      (l.session .a).sealCalls.length = 5 ∧ (l.session .a).senders.map (fun t => t.out.length) = [2] ∧
      ∀ es₁ es₂ l₁, sharesAndCrosses = es₁ ++ es₂ → run (step .exact) sharingLink es₁ = some l₁ → l₁.sealCalls.Nodup := by
  obtain ⟨l, hrun, hlen, hout, hnone, ha, hb⟩ : ∃ l, run (step .exact) sharingLink sharesAndCrosses = some l ∧
      (l.session .a).sealCalls.length = 5 ∧ (l.session .a).senders.map (fun t => t.out.length) = [2] ∧
      (l.session .b).senders.length = 0 ∧ (l.session .a).Few ∧ (l.session .b).Few := exists_run (by decide +kernel)
  have hone : (l.session .a).senders.length = 1 := by
    rw [← List.length_map, hout]
    rfl
  have hfew : ∀ side, (l.session side).Few := by
    intro side
    cases side
    · exact ha
    · exact hb
  refine ⟨l, hrun, hlen, hout, (nonces_unique_iff (by decide +kernel) hrun hfew).mpr ?_⟩
  rintro ⟨es₁, e, es₂, l₁, hes, hl₁, q, ev, t, rfl, ht, hseals, r, u, hne, hu, hseq⟩
  obtain ⟨l₁', hl₁', hrest⟩ := (run_append_eq_some _).mp (hes ▸ hrun)
  obtain rfl : l₁ = l₁' := Option.some.inj (hl₁.symm.trans hl₁')
  -- there is one sender at the end, so there never was another
  have honly : ∀ q : Side × ℕ, (l.sender? q).isSome → q = (.a, 0) := by
    rintro ⟨side, i⟩ hsome
    have hlt := (List.getElem?_eq_some_iff.mp (Option.eq_some_of_isSome hsome)).1
    cases side
    · exact congrArg (Prod.mk Side.a) (Nat.lt_one_iff.mp (hlt.trans_eq hone))
    · exact absurd (hlt.trans_eq hnone) (Nat.not_lt_zero i)
  exact hne ((honly r (stays_of_run hrest hu)).trans (honly q (stays_of_run hrest ht)).symm)

end Link

end ScreenLink
