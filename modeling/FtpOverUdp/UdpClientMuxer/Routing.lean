import FtpOverUdp.UdpClientMuxer.Muxer
import Mathlib.Data.List.Nodup

namespace FtpOverUdp

open Library

-- a datagram of fewer than four bytes has no id of its own
def Delivery.CarriesId (d : Delivery) : Prop :=
  4 ≤ d.bytes.length → decodeInt d.bytes = d.clientId

theorem decodeInt_append {bytes : List UInt8} (h : 4 ≤ bytes.length) (rest : List UInt8) :
    decodeInt (bytes ++ rest) = decodeInt bytes := by
  rw [decodeInt,decodeInt,List.take_append_of_le_length h]

theorem MsgImage.int_memcpy {old msg : MsgImage} {bytes : List UInt8}
    (h : old.memcpy bytes = some msg) (hlength : 4 ≤ bytes.length) :
    msg.int 0 = decodeInt bytes := by
  unfold MsgImage.memcpy at h
  split_ifs at h
  obtain rfl := Option.some.inj h
  rw [MsgImage.int,List.drop_zero,decodeInt_append hlength]

theorem ReceiveBuffer.receive_received {old buffer : ReceiveBuffer} {bytes : List UInt8}
    (h : old.receive bytes = some buffer) : buffer.received = bytes := by
  unfold ReceiveBuffer.receive at h
  split_ifs at h
  exact Option.some.inj h ▸ rfl

namespace Muxer

structure Routed (s : Muxer) : Prop where
  entries : ∀ id address, s.clientMap id = some address ↔ (id,address) ∈ s.handedOut
  once : (s.handedOut.map Prod.fst).Nodup
  replies : ∀ r ∈ s.replies, r ∈ s.handedOut
  delivered : ∀ d ∈ s.delivered, (d.clientId,d.address) ∈ s.handedOut
  carried : ∀ d ∈ s.delivered, d.CarriesId

def Keeps (s t : Muxer) : Prop :=
  ∀ id address, s.clientMap id = some address → t.clientMap id = some address

structure Inv (s : Muxer) : Prop extends Routed s where
  registering : ∀ id, s.client.stage = .registering id → s.clientMap id = none
  replying : ∀ id, s.client.stage = .replying id → (id,s.client.currentClient) ∈ s.handedOut
  sending : s.router.stage = .sending →
    (s.current.clientId,s.current.address) ∈ s.handedOut
  holding : s.router.stage ≠ .receiving → s.current.CarriesId

def LooksUpHandedOut (s : Muxer) : Event → Prop
  | .lookUp => ∃ address, (s.router.msg.int 0,address) ∈ s.handedOut
  | _ => True

variable {s t : Muxer} {id : ℤ}

theorem start_inv (client router : ReceiveBuffer) (msg : MsgImage) (from' to' : Address) :
    (start client router msg from' to').Inv := by
  refine ⟨⟨fun id address => iff_of_false nofun List.not_mem_nil,List.nodup_nil,?_,?_,?_⟩,?_,?_,?_,?_⟩
  · exact fun r hr => absurd hr List.not_mem_nil
  · exact fun d hd => absurd hd List.not_mem_nil
  · exact fun d hd => absurd hd List.not_mem_nil
  · exact fun id hstage => by cases hstage
  · exact fun id hstage => by cases hstage
  · exact fun hstage => by cases hstage
  · exact fun hstage => absurd rfl hstage

theorem lookUp_of_step (ht : s.step .lookUp = some t) :
    s.router.stage = .lookingUp ∧ t = s.lookUp := by
  simp only [Muxer.step] at ht
  split_ifs at ht with hstage
  exact ⟨hstage,(Option.some.inj ht).symm⟩

namespace Inv

variable (h : s.Inv)
include h

theorem moveClient {c : ClientListener} (hreg : ∀ id, c.stage ≠ .registering id)
    (hrep : ∀ id, c.stage ≠ .replying id) : Inv { s with client := c } where
  toRouted := ⟨h.entries,h.once,h.replies,h.delivered,h.carried⟩
  registering id hstage := absurd hstage (hreg id)
  replying id hstage := absurd hstage (hrep id)
  sending := h.sending
  holding := h.holding

theorem receiveFromClient {bytes : List UInt8} {currentClient : Address}
    (ht : s.receiveFromClient bytes currentClient = some t) : t.Inv := by
  obtain ⟨buffer,-,ht⟩ := Option.bind_eq_some_iff.mp ht
  split_ifs at ht
  · exact Option.some.inj ht ▸ h.moveClient nofun nofun
  · exact Option.some.inj ht ▸ h.moveClient nofun nofun

theorem draw : (s.draw id).Inv := by
  unfold Muxer.draw
  split_ifs with htaken
  · exact h
  · refine ⟨⟨h.entries,h.once,h.replies,h.delivered,h.carried⟩,fun id' hstage => ?_,
      nofun,h.sending,h.holding⟩
    rw [← ClientListener.Stage.registering.inj hstage]
    exact Option.not_isSome_iff_eq_none.mp htaken

theorem fresh (hfree : s.clientMap id = none) (address : Address) : (id,address) ∉ s.handedOut := by
  intro hmem
  rw [(h.entries id address).mpr hmem] at hfree
  cases hfree

theorem register (hstage : s.client.stage = .registering id) : (s.register id).Inv := by
  have hfree := h.registering id hstage
  have hgrow : ∀ r ∈ s.handedOut, r ∈ (s.register id).handedOut :=
    fun r hr => List.mem_append_left _ hr
  refine ⟨⟨fun id' address => ?_,?_,fun r hr => hgrow r (h.replies r hr),
    fun d hd => hgrow _ (h.delivered d hd),h.carried⟩,nofun,fun id' hs => ?_,
    fun hs => hgrow _ (h.sending hs),h.holding⟩
  · change s.clientMap.insert id s.client.currentClient id' = some address ↔ _
    rw [Table.insert_of_none _ _ hfree,Table.assign_apply]
    change _ ↔ (id',address) ∈ s.handedOut ++ [(id,s.client.currentClient)]
    rw [List.mem_append,List.mem_singleton,← h.entries]
    split_ifs with he
    · rw [he,hfree]
      simp [eq_comm]
    · simp [he]
  · refine List.map_append ▸ h.once.append (List.nodup_singleton _) fun id' hid hnew => ?_
    obtain ⟨⟨id',address⟩,hmem,rfl⟩ := List.mem_map.mp hid
    have hsame : id' = id := List.mem_singleton.mp hnew
    exact h.fresh hfree address (hsame ▸ hmem)
  · rw [← ClientListener.Stage.replying.inj hs]
    exact List.mem_append_right _ List.mem_cons_self

theorem reply (hstage : s.client.stage = .replying id) : (s.reply id).Inv where
  entries := h.entries
  once := h.once
  replies r hr := by
    rcases List.mem_append.mp hr with hr | hr
    · exact h.replies r hr
    · exact List.mem_singleton.mp hr ▸ h.replying id hstage
  delivered := h.delivered
  carried := h.carried
  registering := nofun
  replying := nofun
  sending := h.sending
  holding := h.holding

theorem relay : s.relay.Inv where
  toRouted := ⟨h.entries,h.once,h.replies,h.delivered,h.carried⟩
  registering := nofun
  replying := nofun
  sending := h.sending
  holding := h.holding

theorem receiveFromRouter {bytes : List UInt8} (ht : s.receiveFromRouter bytes = some t) :
    t.Inv := by
  obtain ⟨buffer,hbuffer,ht⟩ := Option.bind_eq_some_iff.mp ht
  obtain ⟨msg,hmsg,rfl⟩ := Option.map_eq_some_iff.mp ht
  refine ⟨⟨h.entries,h.once,h.replies,h.delivered,h.carried⟩,h.registering,h.replying,nofun,
    fun _ hlength => ?_⟩
  have hreceived : buffer.received = bytes := ReceiveBuffer.receive_received hbuffer
  change 4 ≤ buffer.received.length at hlength
  change decodeInt buffer.received = msg.int 0
  rw [hreceived] at hlength ⊢
  exact (MsgImage.int_memcpy hmsg hlength).symm

theorem deliver (hstage : s.router.stage = .sending) : s.deliver.Inv where
  entries := h.entries
  once := h.once
  replies := h.replies
  delivered d hd := by
    rcases List.mem_append.mp hd with hd | hd
    · exact h.delivered d hd
    · exact List.mem_singleton.mp hd ▸ h.sending hstage
  carried d hd := by
    rcases List.mem_append.mp hd with hd | hd
    · exact h.carried d hd
    · exact List.mem_singleton.mp hd ▸ h.holding (by rw [hstage]; nofun)
  registering := h.registering
  replying := h.replying
  sending := nofun
  holding := fun hne => absurd rfl hne

theorem lookUp (hstage : s.router.stage = .lookingUp) {address : Address}
    (hmem : (s.router.msg.int 0,address) ∈ s.handedOut) : s.lookUp.Inv := by
  have hholding : s.current.CarriesId := h.holding (by rw [hstage]; nofun)
  have hentry := (h.entries _ _).mpr hmem
  have hsame := Table.insert_of_some s.clientMap {} hentry
  have hsent : (s.lookUp.router.msg.int 0,s.lookUp.router.currentClient) ∈ s.handedOut := by
    simp only [Muxer.lookUp,hsame,hentry,Option.getD_some]
    exact hmem
  refine ⟨⟨?_,h.once,h.replies,h.delivered,h.carried⟩,?_,h.replying,fun _ => hsent,
    fun _ => hholding⟩
  · simp only [Muxer.lookUp,hsame]
    exact h.entries
  · simp only [Muxer.lookUp,hsame]
    exact h.registering

theorem step {e : Event} (hlook : s.LooksUpHandedOut e) (ht : s.step e = some t) : t.Inv := by
  cases e with
  | lookUp =>
    obtain ⟨hstage,rfl⟩ := lookUp_of_step ht
    obtain ⟨address,hmem⟩ := hlook
    exact h.lookUp hstage hmem
  | clientDatagram bytes currentClient =>
    simp only [Muxer.step] at ht
    split_ifs at ht
    exact h.receiveFromClient ht
  | draw id =>
    simp only [Muxer.step] at ht
    split_ifs at ht
    exact Option.some.inj ht ▸ h.draw
  | register =>
    simp only [Muxer.step] at ht
    split at ht
    · exact Option.some.inj ht ▸ h.register ‹_›
    · cases ht
  | reply =>
    simp only [Muxer.step] at ht
    split at ht
    · exact Option.some.inj ht ▸ h.reply ‹_›
    · cases ht
  | relay =>
    simp only [Muxer.step] at ht
    split_ifs at ht
    exact Option.some.inj ht ▸ h.relay
  | routerDatagram bytes =>
    simp only [Muxer.step] at ht
    split_ifs at ht
    exact h.receiveFromRouter ht
  | deliver =>
    simp only [Muxer.step] at ht
    split_ifs at ht with hstage
    exact Option.some.inj ht ▸ h.deliver hstage

end Inv

theorem step_clientMap {e : Event} (ht : s.step e = some t) : t.clientMap = s.clientMap ∨
    ∃ id address, t.clientMap = s.clientMap.insert id address := by
  cases e with
  | clientDatagram bytes currentClient =>
    simp only [Muxer.step] at ht
    split_ifs at ht
    obtain ⟨buffer,-,ht⟩ := Option.bind_eq_some_iff.mp ht
    split_ifs at ht
    all_goals exact Or.inl (Option.some.inj ht ▸ rfl)
  | draw id =>
    simp only [Muxer.step] at ht
    split_ifs at ht
    obtain rfl := Option.some.inj ht
    unfold draw
    split_ifs
    all_goals exact Or.inl rfl
  | register =>
    simp only [Muxer.step] at ht
    split at ht
    · obtain rfl := Option.some.inj ht
      exact Or.inr ⟨_,_,rfl⟩
    · cases ht
  | reply =>
    simp only [Muxer.step] at ht
    split at ht
    · exact Or.inl (Option.some.inj ht ▸ rfl)
    · cases ht
  | routerDatagram bytes =>
    simp only [Muxer.step] at ht
    split_ifs at ht
    obtain ⟨buffer,-,ht⟩ := Option.bind_eq_some_iff.mp ht
    obtain ⟨msg,-,rfl⟩ := Option.map_eq_some_iff.mp ht
    exact Or.inl rfl
  | lookUp =>
    obtain ⟨-,rfl⟩ := lookUp_of_step ht
    exact Or.inr ⟨_,_,rfl⟩
  | relay | deliver =>
    simp only [Muxer.step] at ht
    split_ifs at ht
    exact Or.inl (Option.some.inj ht ▸ rfl)

theorem step_keeps {e : Event} (ht : s.step e = some t) : s.Keeps t := by
  intro id address haddress
  rcases step_clientMap ht with hsame | ⟨id',address',hinsert⟩
  · rw [hsame]
    exact haddress
  · rw [hinsert]
    exact Table.insert_keeps _ _ haddress

-- `operator[]` leaves an entry behind whatever the id is
theorem lookUp_isSome (s : Muxer) : (s.lookUp.clientMap (s.router.msg.int 0)).isSome :=
  Table.insert_isSome ..

theorem Routed.looksUpHandedOut {e : Event} (hrouted : t.Routed) (ht : s.step e = some t) :
    s.LooksUpHandedOut e := by
  cases e with
  | lookUp =>
    obtain ⟨-,rfl⟩ := lookUp_of_step ht
    obtain ⟨address,haddress⟩ := Option.isSome_iff_exists.mp s.lookUp_isSome
    exact ⟨address,(hrouted.entries _ _).mp haddress⟩
  | _ => trivial

theorem routed_iff (client router : ReceiveBuffer) (msg : MsgImage) (from' to' : Address)
    (events : List Event) :
    system.Along (fun s _ t => s.Keeps t ∧ t.Routed) (start client router msg from' to') events ↔
      system.Along (fun s e _ => s.LooksUpHandedOut e) (start client router msg from' to') events :=
  system.along_iff_of_step
    (fun _ _ _ h ht => ⟨⟨fun hkept => hkept.2.looksUpHandedOut ht,
      fun hlook => ⟨step_keeps ht,(h.step hlook ht).toRouted⟩⟩,
      fun hkept => h.step (hkept.2.looksUpHandedOut ht) ht⟩)
    (start_inv client router msg from' to') events

-- a client that kept the id 5 of an earlier muxer is answered before anyone registers
theorem unregistered_id_enters_map :
    ¬∀ client router msg from' to' events t, system.run (start client router msg from' to') events =
      some t → t.handedOut.length < 256 → t.Routed := by
  intro h
  let idle : ReceiveBuffer := ⟨[],List.replicate rcvBufferSize 0,by
    rw [List.length_replicate]
    rfl⟩
  let msg : MsgImage := ⟨List.replicate (msgHdrSize + bufferLength) 0,List.length_replicate⟩
  let ack : Msg := ⟨5,3,.ack,0,0,Buffer.copyIn []⟩
  let events : List Event := [.routerDatagram ack.datagram,.lookUp]
  have hrun : (system.run (start idle idle msg {} {}) events).any (fun s =>
      (s.clientMap 5).isSome && s.handedOut.isEmpty) = true := by
    decide +kernel
  obtain ⟨s,hs,hend⟩ := (Option.any_eq_true _ _).mp hrun
  obtain ⟨hmap,hnone⟩ := Bool.and_eq_true_iff.mp hend
  rw [List.isEmpty_iff] at hnone
  have hfew : s.handedOut.length < 256 := by
    rw [hnone]
    decide
  have hrouted : s.Routed := h idle idle msg {} {} events s hs hfew
  obtain ⟨address,haddress⟩ := Option.isSome_iff_exists.mp hmap
  have hmem := (hrouted.entries 5 address).mp haddress
  rw [hnone] at hmem
  cases hmem

end Muxer
end FtpOverUdp
