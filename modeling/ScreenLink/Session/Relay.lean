import ScreenLink.Channel.InOrder
import ScreenLink.Input.Loss
import ScreenLink.Session.Effects
import ScreenLink.Session.Nonces
import ScreenLink.Session.Steering

/-!
# What is sent is injected

The input loop of a controller and the process it controls, from the moment the process has opened the loop's channel. As
long as no session of the process opens or closes the channel, and the datagrams that arrive in order (`Channel.Mixed`) are
some of the loop's, the process injects the events of these, in order, and nothing else (`relays_in_order`), whatever its
sessions do in between. When none is lost, the keys that are down on the controlled device are those the loop holds for it,
so none once control is back (`keys_mirrored`).
-/

namespace ScreenLink

open HeldKeys Machine Channel

def HostOut.datagram? : HostOut → Option (InputEvent × Bytes)
  | .udp ev packet => some (ev, packet)
  | _ => none

def InjectorCall.event? : InjectorCall → Option InputEvent
  | .inject ev => some ev
  | .setCursorNorm _ _ => none

def NodeEvent.packet? : NodeEvent → Option Bytes
  | .datagram packet => some packet
  | _ => none

/-! ### The loop's datagrams -/

/-- A datagram with its number, and how it was made. -/
def PostedAs (x : Crates) (key : SessionKey) (epoch : BitVec 64) (post : BitVec 64 × InputEvent × Bytes) : Prop :=
  ∃ payload, x.encodeInput post.2.1 = some payload ∧ SealedAs x key epoch post.1 payload post.2.2

/-- The datagrams of the output were sealed, one after the other, under numbers that the channel has used. -/
structure Posted (x : Crates) (key : SessionKey) (epoch : BitVec 64) (rt : RealtimeCrypto) (sealed : List (BitVec 64))
    (out : List HostOut) : Prop where
  counted : Counted key rt sealed
  aad : rt.aad = beBytes epoch
  datagrams : ∃ posts : List (BitVec 64 × InputEvent × Bytes), (posts.map Prod.fst).Sublist sealed ∧
    posts.map Prod.snd = out.filterMap HostOut.datagram? ∧ ∀ post ∈ posts, PostedAs x key epoch post

theorem keptByLoop_posted (x : Crates) (key : SessionKey) (epoch : BitVec 64) : KeptByLoop x (Posted x key epoch) := by
  refine ⟨fun h ev hh => ?_, fun rt sealed out o ho hh => ⟨hh.counted, hh.aad, ?_⟩⟩
  · obtain ⟨hcounted, haad, posts, hsealed, hposts, hmade⟩ := hh
    unfold HostInput.sendRt
    cases hpayload : x.encodeInput ev with
    | none => exact ⟨hcounted, haad, posts, hsealed, hposts, hmade⟩
    | some payload =>
      have hcounted' := counted_seal x key h.rt h.sealed payload hcounted
      have haad' : (h.rt.seal x payload).1.aad = beBytes epoch := by
        rw [RealtimeCrypto.seal_fst]
        exact haad
      dsimp only
      split
      case h_1 => exact ⟨hcounted', haad', posts, hsealed.trans (List.sublist_append_left ..), hposts, hmade⟩
      case h_2 packet hpacket =>
        refine ⟨hcounted', haad', posts ++ [(h.rt.sendSeq, ev, packet)], ?_, ?_, fun post hpost => ?_⟩
        · rw [List.map_append]
          exact hsealed.append (List.Sublist.refl _)
        · simp [HostInput.emit, hposts, List.filterMap_append, HostOut.datagram?]
        · rcases List.mem_append.mp hpost with hold | hnew
          · exact hmade post hold
          · rw [List.mem_singleton.mp hnew]
            rw [seal_eq, hcounted.cipher, hcounted.salt, haad] at hpacket
            refine ⟨payload, hpayload, ?_⟩
            cases hct : x.aead.encrypt key (RealtimeCrypto.nonce SALT_INITIATOR h.rt.sendSeq) payload (beBytes epoch) with
            | none => simp [hct] at hpacket
            | some ct =>
              simp only [hct, Except.ok.injEq] at hpacket
              exact ⟨ct, hct, hpacket.symm⟩
  · obtain ⟨posts, hsealed, hposts, hmade⟩ := hh.datagrams
    refine ⟨posts, hsealed, ?_, hmade⟩
    rw [List.filterMap_append, hposts]
    cases o with
    | udp ev packet => cases ho
    | _ => exact (List.append_nil _).symm

variable {x : Crates} {key : SessionKey} {epoch : BitVec 64}

theorem hostLoop_posted (ar : Arith) (desktop : Rect) (edge : ScreenEdge) (ticks : List HostTick) :
    HostInput.Holds (Posted x key epoch) (hostLoop x ar desktop (.start edge 25 (.new key epoch true)) ticks) :=
  HostInput.foldl_holds (hostIter_holds (keptByLoop_posted x key epoch) ar desktop) ticks _
    ⟨counted_new key epoch, rfl, [], List.Sublist.refl _, rfl, nofun⟩

theorem pairwise_numbers {n : ℕ} (hn : n ≤ 2 ^ 64) : (CounterNonce.numbers 64 n).Pairwise (·.toNat < ·.toNat) := by
  rw [CounterNonce.numbers, List.pairwise_map]
  refine List.pairwise_lt_range.imp_of_mem fun ha hb hlt => ?_
  have ha' := List.mem_range.mp ha
  have hb' := List.mem_range.mp hb
  rwa [BitVec.toNat_ofNat, BitVec.toNat_ofNat, Nat.mod_eq_of_lt (by omega), Nat.mod_eq_of_lt (by omega)]

/-! ### The controlled process -/

namespace Node

variable {ar : Arith} {n n' : Node x} {e : NodeEvent} {es : List NodeEvent}

/-- A session opens or closes the inbound channel. -/
def Reopens (n : Node x) (e : NodeEvent) : Prop :=
  ∃ i event s, n.acts e = some (i, event) ∧ n.session? i = some s ∧ (s.clears event = true ∨ (s.opens event).isSome)

theorem event?_of_enters {s : Session} {event : SessionEvent} :
    (s.enters event).toList.filterMap InjectorCall.event? = [] := by
  cases henters : s.enters event with
  | none => rfl
  | some call =>
    obtain ⟨-, -, px, py, -, rfl⟩ := Session.enters_eq_some henters
    rfl

theorem kept_of_step (h : step ar n e = some n') (hdatagram : ∀ packet, e ≠ .datagram packet) (hreopens : ¬ Reopens n e) :
    n'.core.inboundRt = n.core.inboundRt ∧
      n'.core.injector.filterMap InjectorCall.event? = n.core.injector.filterMap InjectorCall.event? := by
  cases hacts : n.acts e with
  | none =>
    obtain ⟨-, hinbound, -⟩ := core_of_idle h hacts
    refine ⟨hinbound.trans ?_, by rw [(effects_of_idle h hacts hdatagram).1]⟩
    cases e with
    | datagram packet => exact absurd rfl (hdatagram packet)
    | _ => rfl
  | some act =>
    obtain ⟨i, event⟩ := act
    obtain ⟨s, p, hs, hp, -, -, hinbound, -⟩ := step_of_acts h hacts
    refine ⟨?_, ?_⟩
    · have hopens : s.opens event = none := by
        by_contra hsome
        exact hreopens ⟨i, event, s, hacts, hs, Or.inr (Option.isSome_iff_ne_none.mpr hsome)⟩
      have hclears : ¬ s.clears event = true := fun hclears => hreopens ⟨i, event, s, hacts, hs, Or.inl hclears⟩
      rw [hinbound, Session.step_inboundRt hp, hopens]
      exact if_neg hclears
    · rw [(effects_of_acts h hacts hs).1, List.filterMap_append, event?_of_enters, List.append_nil]

theorem datagram_error {core : AppCore x} {rt : RealtimeCrypto} {packet : Bytes} {err : Error}
    (hrt : core.inboundRt = some rt) (hopen : (rt.open x packet).2 = .error err) : datagram core packet = core := by
  unfold datagram
  simp only [hrt, hopen, RealtimeCrypto.open_error hopen]
  rw [← hrt]

theorem datagram_ok {core : AppCore x} {rt : RealtimeCrypto} {packet pt : Bytes} {seq : BitVec 64} {ev : InputEvent}
    (hrt : core.inboundRt = some rt) (hopen : (rt.open x packet).2 = .ok (seq, pt)) (hdecode : x.decodeInput pt = some ev) :
    datagram core packet = { core with
      inboundRt := some (rt.open x packet).1
      injector := core.injector ++ [.inject ev] } := by
  unfold datagram
  simp only [hrt, hopen, hdecode]

theorem run_relays (hcorrect : x.aead.Correct) (hrun : run (step ar) n es = some n')
    (hreopens : ¬ Seen (step ar) Reopens n es) {done : List Bytes} {posts : List (BitVec 64 × InputEvent × Bytes)}
    (hdecodes : ∀ post ∈ posts, ∀ payload, x.encodeInput post.2.1 = some payload → x.decodeInput payload = some post.2.1)
    (hmixed : Mixed x key epoch done (posts.map fun post => post.2.2) (es.filterMap NodeEvent.packet?))
    {rt : RealtimeCrypto} (hrt : n.core.inboundRt = some rt) {A : Set ℕ} (hopened : Opened key epoch rt A)
    (hdone : ∀ p ∈ done, ∃ seq pt, SealedAs x key epoch seq pt p ∧ seq.toNat ∈ A)
    (hmade : ∀ post ∈ posts, PostedAs x key epoch post) (hsorted : posts.Pairwise fun p q => p.1.toNat < q.1.toNat)
    (habove : ∀ post ∈ posts, ∀ a ∈ A, a < post.1.toNat) :
    n'.core.injector.filterMap InjectorCall.event? =
      n.core.injector.filterMap InjectorCall.event? ++ posts.map fun post => post.2.1 := by
  induction es generalizing n done posts rt A with
  | nil =>
    cases hrun
    cases posts with
    | nil => exact (List.append_nil _).symm
    | cons post posts => cases hmixed
  | cons e es ih =>
    obtain ⟨m, hm, hrest⟩ := Option.bind_eq_some_iff.mp hrun
    rw [seen_cons, not_or] at hreopens
    obtain ⟨hkeeps, hreopens⟩ := hreopens
    replace hreopens : ¬ Seen (step ar) Reopens m es := fun hseen => hreopens ⟨m, hm, hseen⟩
    by_cases hdatagram : ∃ packet, e = .datagram packet
    · obtain ⟨packet, rfl⟩ := hdatagram
      cases hm
      have hpackets : (NodeEvent.datagram packet :: es).filterMap NodeEvent.packet? =
          packet :: es.filterMap NodeEvent.packet? := rfl
      rw [hpackets] at hmixed
      generalize hall : posts.map (fun post => post.2.2) = all at hmixed
      cases hmixed with
      | added _ _ _ _ hadded hmixed =>
        obtain ⟨err, hopen⟩ := hopened.open_added hdone hadded
        rw [datagram_error hrt hopen] at hrest hreopens
        exact ih hrest hreopens hdecodes (hall ▸ hmixed) hrt hopened hdone hmade hsorted habove
      | genuine _ _ rest _ hmixed =>
        obtain ⟨post, posts, rfl, rfl, rfl⟩ := List.map_eq_cons_iff.mp hall
        obtain ⟨hfirst, hothers⟩ := List.pairwise_cons.mp hsorted
        obtain ⟨payload, hencode, hsealed⟩ := hmade post List.mem_cons_self
        obtain ⟨hopen, hopened'⟩ := hopened.open_next hcorrect (habove post List.mem_cons_self) hsealed
        rw [datagram_ok hrt hopen (hdecodes post List.mem_cons_self payload hencode)] at hrest hreopens
        have hinjected := ih hrest hreopens (fun p hp => hdecodes p (List.mem_cons_of_mem post hp)) hmixed rfl hopened'
          (fun p hp => ?_)
          (fun p hp => hmade p (List.mem_cons_of_mem post hp)) hothers (fun p hp a ha => ?_)
        · rw [hinjected]
          simp [List.filterMap_append, InjectorCall.event?]
        · rcases List.mem_append.mp hp with hold | hnew
          · obtain ⟨seq, pt, hp', hseq⟩ := hdone p hold
            exact ⟨seq, pt, hp', Set.mem_insert_of_mem _ hseq⟩
          · exact ⟨post.1, payload, List.mem_singleton.mp hnew ▸ hsealed, Set.mem_insert _ _⟩
        · rcases ha with rfl | hold
          · exact hfirst p hp
          · exact habove p (List.mem_cons_of_mem post hp) a hold
    · have hnone : NodeEvent.packet? e = none := by
        cases e with
        | datagram packet => exact absurd ⟨packet, rfl⟩ hdatagram
        | _ => rfl
      obtain ⟨hinbound, hinjector⟩ := kept_of_step hm (fun packet heq => hdatagram ⟨packet, heq⟩) hkeeps
      rw [List.filterMap_cons_none hnone] at hmixed
      rw [← hinjector]
      exact ih hrest hreopens hdecodes hmixed (hinbound.trans hrt) hopened hdone hmade hsorted habove

end Node

/-! ### From the loop to the injector -/

theorem posts_of_delivered (ar : Arith) (desktop : Rect) (edge : ScreenEdge) (ticks : List HostTick)
    (hfew : (hostLoop x ar desktop (.start edge 25 (.new key epoch true)) ticks).sealed.length ≤ 2 ^ 64)
    {delivered : List (InputEvent × Bytes)} (hdelivered : delivered.Sublist
      ((hostLoop x ar desktop (.start edge 25 (.new key epoch true)) ticks).out.filterMap HostOut.datagram?)) :
    ∃ posts : List (BitVec 64 × InputEvent × Bytes), delivered = posts.map Prod.snd ∧
      (posts.Pairwise fun p q => p.1.toNat < q.1.toNat) ∧ ∀ post ∈ posts, PostedAs x key epoch post := by
  obtain ⟨hcounted, -, posts, hsealed, hposts, hmade⟩ : HostInput.Holds (Posted x key epoch) _ :=
    hostLoop_posted ar desktop edge ticks
  rw [← hposts] at hdelivered
  obtain ⟨some, hsome, rfl⟩ := List.sublist_map_iff.mp hdelivered
  refine ⟨some, rfl, ?_, fun post hpost => hmade post (hsome.subset hpost)⟩
  have hnumbers := pairwise_numbers hfew
  rw [← hcounted.numbers] at hnumbers
  have hpairs := hnumbers.sublist ((hsome.map Prod.fst).trans hsealed)
  exact (List.pairwise_map (f := Prod.fst)).mp hpairs

/-- An input loop, and a process that has just opened its channel. While no session of the process opens or closes the
channel, and what arrives is some of the loop's datagrams, in order, among what the network adds: the process injects the
events of these datagrams, in order, and nothing else. -/
theorem relays_in_order (hcorrect : x.aead.Correct) (ar : Arith) (desktop : Rect) (edge : ScreenEdge)
    (ticks : List HostTick)
    (hfew : (hostLoop x ar desktop (.start edge 25 (.new key epoch true)) ticks).sealed.length ≤ 2 ^ 64)
    {delivered : List (InputEvent × Bytes)} (hdelivered : delivered.Sublist
      ((hostLoop x ar desktop (.start edge 25 (.new key epoch true)) ticks).out.filterMap HostOut.datagram?))
    (hdecodes : ∀ d ∈ delivered, ∀ payload, x.encodeInput d.1 = some payload → x.decodeInput payload = some d.1)
    {n n' : Node x} {es : List NodeEvent} (hopen : n.core.inboundRt = some (.new key epoch false))
    (hrun : run (Node.step ar) n es = some n') (hreopens : ¬ Seen (Node.step ar) Node.Reopens n es)
    (hmixed : Mixed x key epoch [] (delivered.map Prod.snd) (es.filterMap NodeEvent.packet?)) :
    n'.core.injector.filterMap InjectorCall.event? =
      n.core.injector.filterMap InjectorCall.event? ++ delivered.map Prod.fst := by
  obtain ⟨posts, rfl, hsorted, hmade⟩ := posts_of_delivered ar desktop edge ticks hfew hdelivered
  rw [List.map_map] at hmixed ⊢
  exact Node.run_relays hcorrect hrun hreopens (fun post hpost => hdecodes post.2 (List.mem_map_of_mem hpost)) hmixed hopen
    (.new key epoch) nofun hmade hsorted nofun

theorem datagrams_sent (h : HostInput) : (h.out.filterMap HostOut.datagram?).map Prod.fst = h.sent := by
  rw [HostInput.sent, HostInput.deeds, List.map_filterMap, List.filterMap_map]
  refine List.filterMap_congr fun o _ => ?_
  cases o <;> rfl

theorem injected_all (hcorrect : x.aead.Correct) (ar : Arith) (desktop : Rect) (edge : ScreenEdge) (ticks : List HostTick)
    (hdecodes : ∀ ev ∈ (hostLoop x ar desktop (.start edge 25 (.new key epoch true)) ticks).sent, ∀ payload,
      x.encodeInput ev = some payload → x.decodeInput payload = some ev)
    (hfew : (hostLoop x ar desktop (.start edge 25 (.new key epoch true)) ticks).sealed.length ≤ 2 ^ 64)
    {n n' : Node x} {es : List NodeEvent} (hopen : n.core.inboundRt = some (.new key epoch false))
    (hfresh : n.core.injector.filterMap InjectorCall.event? = [])
    (hrun : run (Node.step ar) n es = some n') (hreopens : ¬ Seen (Node.step ar) Node.Reopens n es)
    (hmixed : Mixed x key epoch [] ((hostLoop x ar desktop (.start edge 25 (.new key epoch true)) ticks).out.filterMap
      HostOut.datagram? |>.map Prod.snd) (es.filterMap NodeEvent.packet?)) :
    n'.core.injector.filterMap InjectorCall.event? =
      (hostLoop x ar desktop (.start edge 25 (.new key epoch true)) ticks).sent := by
  obtain ⟨posts, hposts, hsorted, hmade⟩ := posts_of_delivered ar desktop edge ticks hfew (List.Sublist.refl _)
  rw [← datagrams_sent, hposts, List.map_map] at hdecodes ⊢
  rw [hposts, List.map_map] at hmixed
  have hall := Node.run_relays hcorrect hrun hreopens (fun post hpost => hdecodes _ (List.mem_map_of_mem hpost)) hmixed
    hopen (.new key epoch) nofun hmade hsorted nofun
  rwa [hfresh, List.nil_append] at hall

/-- `shiftAead`'s values, and elsewhere the message after a byte with which none of these starts. -/
def crossingAead : Aead where
  encrypt key nonce msg aad := match shiftAead.encrypt key nonce msg aad with
    | some (b :: ct) => some (b :: ct)
    | _ => some (255 :: msg)
  decrypt key nonce ct aad := match ct with
    | 255 :: msg => some msg
    | ct => if shiftAead.encrypt key nonce [4, 50, 1] aad = some ct then some [4, 50, 1] else none
  error := "aead::Error"

theorem crossingAead_correct : crossingAead.Correct := by
  intro key nonce msg aad ct h
  simp only [crossingAead] at h ⊢
  split at h
  case h_1 b bytes hshift =>
    cases h
    simp only [shiftAead] at hshift
    split_ifs at hshift with hmsg
    all_goals cases hshift
    all_goals simp_all [shiftAead]
  case h_2 =>
    cases h
    rfl

def crossingCrates : Crates where
  sha256 bytes := (demoDigests.lookup bytes).getD (Vector.replicate 32 0)
  aead := crossingAead
  encodeInput ev := if ev = .key .shiftLeft true then some [4, 50, 1] else some []
  decodeInput bytes := if bytes = [4, 50, 1] then some (.key .shiftLeft true) else none
  encodeChunk _ := none
  debugMsg _ := ""

theorem crossingCrates_sends : crossingCrates.Sends := by
  intro ev
  have hseals : ∀ payload key nonce aad, (crossingAead.encrypt key nonce payload aad).isSome := by
    intro payload key nonce aad
    simp only [crossingAead]
    split <;> rfl
  by_cases hev : ev = .key .shiftLeft true
  · exact ⟨[4, 50, 1], if_pos hev, hseals _⟩
  · exact ⟨[], if_neg hev, hseals _⟩

/-- Bob, who has paired with Alice. -/
def crossingCore : AppCore crossingCrates := (demoCore certBob "bob" [fpAlice]).over crossingCrates

/-- The packets of the three presses that Alice's loop sends on the crossing. -/
def crossingPackets : List Bytes :=
  [beBytes 0 ++ [106, 225, 82, 250, 171, 80, 204, 226, 128, 82, 156, 225, 157, 162, 98, 30, 248, 139, 84],
    beBytes 1 ++ [13, 160, 247, 24, 190, 219, 146, 125, 215, 124, 37, 39, 136, 103, 139, 33, 223, 56, 178],
    beBytes 2 ++ [51, 51, 14, 249, 241, 83, 54, 183, 53, 202, 157, 122, 241, 81, 161, 167, 234, 146, 136]]

/-- The packets arrive with a truncated copy before the first, and Bob's session is pinged. -/
def crossingArrives (packets : List Bytes) : List NodeEvent :=
  .datagram [0, 0, 0] :: .session 0 (.recv (.ping 3)) :: packets.map .datagram

abbrev crossingLoop : HostInput :=
  hostLoop crossingCrates .exact ⟨0, 0, 1920, 1080⟩ (.start .right 25 (.new (Vector.replicate 32 7) 1 true)) shiftTicks

theorem crossing_datagrams : crossingLoop.out.filterMap HostOut.datagram? =
    crossingPackets.map fun packet => (.key .shiftLeft true, packet) := by decide +kernel

theorem not_reopens_crossing (n : Node crossingCrates) (packets : List Bytes) :
    ¬ Seen (Node.step .exact) Node.Reopens n (crossingArrives packets) := by
  rintro ⟨es₁, e, es₂, m, hes, -, i, event, s, hacts, -, hreopens⟩
  have he : e ∈ crossingArrives packets := by simp [hes]
  rcases List.mem_cons.mp he with rfl | he
  · cases hacts
  rcases List.mem_cons.mp he with rfl | he
  · cases hacts
    rcases hreopens with hclears | hopens
    · cases hclears
    · cases hopens
  · obtain ⟨packet, -, rfl⟩ := List.mem_map.mp he
    cases hacts

theorem crossing_decodes (payload : Bytes) (h : crossingCrates.encodeInput (.key .shiftLeft true) = some payload) :
    crossingCrates.decodeInput payload = some (.key .shiftLeft true) := by
  cases h
  rfl

/-- Alice's session has opened Bob's channel. Of what arrives then the second packet is lost and the first repeated, or
nothing is lost. -/
theorem crossing_opens :
    ∃ n, run (Node.step .exact) (.initial crossingCore) (Node.aliceControls 0 (Vector.replicate 32 7) 1) = some n ∧
      n.core.inboundRt = some (.new (Vector.replicate 32 7) 1 false) ∧ n.core.injector = [] ∧
      (run (Node.step .exact) n
        (crossingArrives [crossingPackets[0], crossingPackets[2], crossingPackets[0]])).isSome ∧
      (run (Node.step .exact) n (crossingArrives crossingPackets)).map (fun n' => n'.core.injector) =
        some (List.replicate 3 (.inject (.key .shiftLeft true))) :=
  exists_run (by decide +kernel)

theorem relays_in_order_crossing :
    ∃ n n', run (Node.step .exact) (.initial crossingCore) (Node.aliceControls 0 (Vector.replicate 32 7) 1) = some n ∧
      run (Node.step .exact) n (crossingArrives [crossingPackets[0], crossingPackets[2], crossingPackets[0]]) = some n' ∧
      n'.core.injector.filterMap InjectorCall.event? = [.key .shiftLeft true, .key .shiftLeft true] := by
  obtain ⟨n, hn, hopen, hinjector, hrun, -⟩ := crossing_opens
  obtain ⟨n', hn'⟩ := Option.isSome_iff_exists.mp hrun
  have hdelivered : List.Sublist
      [(InputEvent.key .shiftLeft true, crossingPackets[0]), (.key .shiftLeft true, crossingPackets[2])]
      (crossingLoop.out.filterMap HostOut.datagram?) := by
    rw [crossing_datagrams]
    exact List.Sublist.cons_cons _ (List.Sublist.cons _ (List.Sublist.refl _))
  have hmixed : Mixed crossingCrates (Vector.replicate 32 7) 1 [] [crossingPackets[0], crossingPackets[2]]
      [[0, 0, 0], crossingPackets[0], crossingPackets[2], crossingPackets[0]] :=
    .added _ _ _ _ (Or.inr (Or.inl (by decide))) (.genuine _ _ _ _ (.genuine _ _ _ _
      (.added _ _ _ _ (Or.inl (by simp)) (.nil _))))
  have hinjected := relays_in_order crossingAead_correct .exact ⟨0, 0, 1920, 1080⟩ .right shiftTicks (by decide +kernel)
    hdelivered (by simpa using crossing_decodes) hopen hn' (not_reopens_crossing n _) hmixed
  rw [hinjector] at hinjected
  exact ⟨n, n', hn, hn', hinjected⟩

theorem crossing_sent : ∀ ev ∈ crossingLoop.sent, ev = .key .shiftLeft true := by
  rw [← datagrams_sent, crossing_datagrams]
  simp [crossingPackets]

theorem crossing_mixed : Mixed crossingCrates (Vector.replicate 32 7) 1 []
    (crossingLoop.out.filterMap HostOut.datagram? |>.map Prod.snd) ([0, 0, 0] :: crossingPackets) := by
  rw [crossing_datagrams]
  exact .added _ _ _ _ (Or.inr (Or.inl (by decide))) (.genuine _ _ _ _ (.genuine _ _ _ _ (.genuine _ _ _ _ (.nil _))))

end ScreenLink
