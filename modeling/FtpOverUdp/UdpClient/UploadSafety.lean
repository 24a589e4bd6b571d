import FtpOverUdp.UdpClient.Upload

namespace FtpOverUdp

open Library Transfer

def Receiver.Registered (x : Transmission) (rc : Receiver) (i : ℕ) : Prop :=
  i < rc.windowOrigin ∨ rc.Accepted x i

instance (x : Transmission) (rc : Receiver) (i : ℕ) : Decidable (rc.Registered x i) :=
  inferInstanceAs (Decidable (_ ∨ _))

namespace Upload

def SlidesPastAccepted (q : UploadRequest) (st : Upload) : Prop :=
  ∀ i < st.sender.currentWindowOrigin, ∃ rc, st.server.receiver = some rc ∧
    rc.Registered q.transmission i

def TakesRequestAck (q : UploadRequest) (st : Upload) (e : Event) : Prop :=
  e = .receive ∧ st.phase = .sending ∧ ∃ d rest, st.toClient = d :: rest ∧ isRequestAck q d = true

def dataOf (l : List Datagram) : List Datagram := l.filter (·.copyOf.isSome)

structure Requesting (q : UploadRequest) (st : Upload) : Prop where
  phase : st.phase = .requesting
  sender : st.sender = Sender.create q.transmission.serverId q.transmission.clientId
  requestAcks : st.requestAcks = 0
  requests : ∀ d ∈ st.toServer, d = ⟨requestMsg q,none⟩
  acks : ∀ d ∈ st.toClient, isRequestAck q d = true ∧
    d.msg.sequenceNumber = q.transmission.seed.val
  serverId : st.server.serverId = q.serverIdentifier
  server : (st.server.currentState = .waitingForRequest ∧ st.toClient = [] ∧
      st.server.receiver.isSome) ∨
    (st.server.currentState = .receiving ∧
      ∃ rc : Receiver, st.server.receiver = some (rc.startNewPayload q.transmission.seed.val))

structure Stream (x : Transmission) (st : Upload) (rc : Receiver) (up : Peer → List Packet) :
    Prop where
  direct : Direct x .one st.sender rc up
  copies : dataOf st.toServer = (up .one).map fun p => ⟨p.msg,some p.thread⟩
  answers : (dataOf st.toClient).map (fun d => (d.msg.sequenceNumber,d.copyOf)) =
    (up .two).map fun p => (p.msg.sequenceNumber,some p.thread)

def Serves (st : Upload) (rc : Receiver) : Prop :=
  (rc.isComplete = false ∧ st.server.currentState = .receiving ∧ st.server.receiver = some rc) ∨
  (rc.isComplete = true ∧ st.server.currentState = .waitingForRequest ∧
    (∀ d ∈ st.toServer, d.copyOf.isSome) ∧
    ∃ rc', st.server.receiver = some rc' ∧ rc'.windowOrigin = rc.windowOrigin)

structure Streaming (q : UploadRequest) (st : Upload) : Prop where
  phase : st.phase ≠ .requesting
  unsent : st.phase = .sending → st.sender.isPayloadSent = false
  requestAcks : st.requestAcks = 1
  order : st.toServer.Pairwise fun a b => b.copyOf = none → a.copyOf = none
  requests : ∀ d ∈ st.toServer, d.copyOf = none → d.msg = requestMsg q
  stream : ∃ rc up, Stream q.transmission st rc up ∧ Serves st rc

variable {q : UploadRequest} {st st' : Upload}

theorem Streaming.slides (hne : q.transmission.contents ≠ []) (h : Streaming q st) :
    SlidesPastAccepted q st := by
  obtain ⟨rc,up,hs,hserve⟩ := h.stream
  intro i hi
  rcases hserve with ⟨_,_,hrc⟩ | ⟨hc,_,_,rc',hrc,horigin⟩
  · exact ⟨rc,hrc,.inr (hs.direct.slid_accepted hne hi)⟩
  · obtain ⟨hwhole,hle⟩ := hs.direct.complete_origin hne hc
    exact ⟨rc',hrc,.inl (by omega)⟩

theorem Requesting.slides (h : Requesting q st) : SlidesPastAccepted q st := by
  intro i hi
  rw [h.sender] at hi
  exact absurd hi (Nat.not_lt_zero i)

theorem requesting_of_init (h : Init q st) : Requesting q st :=
  ⟨h.phase,h.sender,h.requestAcks,by simp [h.toServer],by simp [h.toClient],h.serverId,
    .inl ⟨h.state,h.toClient,h.receiver⟩⟩

theorem serve_spec {disk : Disk} (h : st.serve disk = some st') :
    ∃ d rest r, st.toServer = d :: rest ∧ st.server.run d.msg disk = some r ∧
      st' = { st with
        server := r.1
        toServer := rest
        toClient := st.toClient ++ replies d r.2 } := by
  simp only [Upload.serve] at h
  split at h
  · cases h
  · rename_i d rest hd
    obtain ⟨r,hr,rfl⟩ := Option.map_eq_some_iff.mp h
    exact ⟨d,rest,r,hd,hr,rfl⟩

theorem Requesting.serve (h : Requesting q st) {disk : Disk} (hs : st.serve disk = some st') :
    Requesting q st' := by
  obtain ⟨d,rest,r,hd,hr,rfl⟩ := serve_spec hs
  have hreq : ∀ a ∈ d :: rest, a = ⟨requestMsg q,none⟩ := hd ▸ h.requests
  obtain rfl := hreq d (by simp)
  have hrc : st.server.receiver.isSome := by
    rcases h.server with ⟨_,_,hrc⟩ | ⟨_,rc,hrc⟩
    · exact hrc
    · exact hrc ▸ rfl
  have hpost : (requestMsg q).type = .post := rfl
  have hstart := h.server.imp And.left And.left
  obtain ⟨server,hrun,hstate,hid,hreceiver⟩ := ServerThread.run_post disk hpost hstart hrc
  obtain rfl := Option.some.inj (hr.symm.trans hrun)
  refine ⟨h.phase,h.sender,h.requestAcks,fun a ha => hreq a (List.mem_cons_of_mem _ ha),?_,
    hid.trans h.serverId,.inr ⟨hstate,?_⟩⟩
  · intro a ha
    rcases List.mem_append.mp ha with ha | ha
    · exact h.acks a ha
    · simp only [replies,ServerThread.sendAck,ServerThread.sendMsg,List.filterMap_cons,
        List.filterMap_nil,List.mem_singleton] at ha
      subst ha
      simp [isRequestAck,h.serverId,requestMsg,SenderThread.create]
  · rw [hreceiver]
    rcases h.server with ⟨hs,_,hrc⟩ | ⟨hs,rc,hrc⟩
    · obtain ⟨rc,hrc⟩ := Option.isSome_iff_exists.mp hrc
      exact ⟨rc,by rw [if_neg (by simp [hs]),hrc]; rfl⟩
    · exact ⟨rc,by rw [if_pos hs,hrc]⟩

theorem Requesting.receive (hne : q.transmission.contents ≠ []) (h : Requesting q st)
    (hs : st.receive q = some st') : Streaming q st' := by
  simp only [Upload.receive] at hs
  split at hs
  · cases hs
  rename_i d rest hd
  obtain ⟨hack,hnum⟩ := h.acks d (by simp [hd])
  have hack' : d.msg.type = .ack ∧ d.msg.serverId = q.serverIdentifier := by
    simp only [isRequestAck,Bool.and_eq_true,decide_eq_true_eq] at hack
    exact hack.1
  simp only [h.phase,h.requestAcks,hack,hnum,hack'.1,hack'.2,ne_eq,not_true_eq_false,or_self,
    if_false,Nat.zero_add,beginSending,h.sender] at hs
  obtain ⟨sender,hsender,rfl⟩ := Option.map_eq_some_iff.mp hs
  have hreceiving : st.server.currentState = .receiving ∧
      ∃ rc : Receiver, st.server.receiver =
        some (rc.startNewPayload q.transmission.seed.val) := by
    rcases h.server with ⟨_,hempty,_⟩ | hreceiving
    · simp [hempty] at hd
    · exact hreceiving
  obtain ⟨hstate,rc,hrc⟩ := hreceiving
  have hstart : start q.transmission rc =
      some ⟨sender,rc.startNewPayload q.transmission.seed.val,Path.start⟩ := by
    simp only [start,hsender,Option.map_some]
  have hnone : ∀ l : List Datagram, (∀ a ∈ l, a.copyOf = none) → dataOf l = [] := by
    intro l hl
    simp only [dataOf,List.filter_eq_nil_iff]
    exact fun a ha => by simp [hl a ha]
  have hacks : ∀ a ∈ rest, a.copyOf = none := by
    intro a ha
    have := (h.acks a (by simp [hd,ha])).1
    simp only [isRequestAck,Bool.and_eq_true,Option.isNone_iff_eq_none] at this
    exact this.2
  have hrequests : ∀ a ∈ st.toServer, a.copyOf = none := fun a ha => by rw [h.requests a ha]
  refine ⟨by simp,fun _ => ?_,rfl,?_,fun a ha _ => by rw [h.requests a ha],
    rc.startNewPayload q.transmission.seed.val,fun _ => [],
    ⟨direct_start hne hstart,by simp [hnone _ hrequests],by simp [hnone _ hacks]⟩,
    .inl ⟨rfl,hstate,hrc⟩⟩
  · exact (start_spec hne hstart).2.2.2.1
  · exact List.pairwise_of_forall_mem_list fun a ha b _ _ => hrequests a ha

theorem dataOf_cons (d : Datagram) (l : List Datagram) :
    dataOf (d :: l) = if d.copyOf.isSome then d :: dataOf l else dataOf l := by
  simp only [dataOf,List.filter_cons]

section Stream

variable {x : Transmission} {rc : Receiver} {up : Peer → List Packet} {d : Datagram}
  {rest : List Datagram}

theorem Stream.head_copy (h : Stream x st rc up) (hd : st.toServer = d :: rest)
    (hc : d.copyOf.isSome) :
    ∃ p ps, up .one = p :: ps ∧ d = ⟨p.msg,some p.thread⟩ ∧
      dataOf rest = ps.map fun p => ⟨p.msg,some p.thread⟩ := by
  have hcopies := h.copies
  rw [hd,dataOf_cons,if_pos hc] at hcopies
  obtain ⟨p,ps,hup,hp,hps⟩ := List.map_eq_cons_iff.mp hcopies.symm
  exact ⟨p,ps,hup,hp.symm,hps.symm⟩

theorem Stream.head_answer (h : Stream x st rc up) (hd : st.toClient = d :: rest)
    (hc : d.copyOf.isSome) :
    ∃ p ps, up .two = p :: ps ∧ d.msg.sequenceNumber = p.msg.sequenceNumber ∧
      (dataOf rest).map (fun d => (d.msg.sequenceNumber,d.copyOf)) =
        ps.map fun p => (p.msg.sequenceNumber,some p.thread) := by
  have hanswers := h.answers
  rw [hd,dataOf_cons,if_pos hc,List.map_cons] at hanswers
  obtain ⟨p,ps,hup,hp,hps⟩ := List.map_eq_cons_iff.mp hanswers.symm
  exact ⟨p,ps,hup,(congrArg Prod.fst hp).symm,hps.symm⟩

theorem Stream.skip_copy (h : Stream x st rc up) (hd : st.toServer = d :: rest) :
    ∃ up', Stream x { st with toServer := rest } rc up' := by
  cases hc : d.copyOf.isSome with
  | false =>
    refine ⟨up,h.direct,?_,h.answers⟩
    rw [← h.copies,hd,dataOf_cons,if_neg (by simp [hc])]
  | true =>
    obtain ⟨p,ps,hup,_,hps⟩ := h.head_copy hd hc
    refine ⟨_,h.direct.lose hup,?_,?_⟩
    · rw [Function.update_self]
      exact hps
    · rw [Function.update_of_ne (by decide)]
      exact h.answers

theorem Stream.skip_answer (h : Stream x st rc up) (hd : st.toClient = d :: rest) :
    ∃ up', Stream x { st with toClient := rest } rc up' := by
  cases hc : d.copyOf.isSome with
  | false =>
    refine ⟨up,h.direct,h.copies,?_⟩
    rw [← h.answers,hd,dataOf_cons,if_neg (by simp [hc])]
  | true =>
    obtain ⟨p,ps,hup,_,hps⟩ := h.head_answer hd hc
    refine ⟨_,h.direct.lose hup,?_,?_⟩
    · rw [Function.update_of_ne (by decide)]
      exact h.copies
    · rw [Function.update_self]
      exact hps

end Stream

theorem Serves.tail {rc : Receiver} {d : Datagram} {rest : List Datagram}
    (h : Serves st rc) (hd : st.toServer = d :: rest) : Serves { st with toServer := rest } rc := by
  refine h.imp_right fun ⟨hc,hs,hall,hrc⟩ => ⟨hc,hs,fun a ha => hall a ?_,hrc⟩
  rw [hd]
  exact List.mem_cons_of_mem d ha

theorem Streaming.loseToServer (h : Streaming q st) :
    Streaming q { st with toServer := st.toServer.tail } := by
  cases hd : st.toServer with
  | nil =>
    rw [List.tail_nil,← hd]
    exact h
  | cons d rest =>
    obtain ⟨rc,up,hs,hserve⟩ := h.stream
    obtain ⟨up',hs'⟩ := hs.skip_copy hd
    have horder := h.order
    rw [hd,List.pairwise_cons] at horder
    refine ⟨h.phase,h.unsent,h.requestAcks,horder.2,fun a ha => h.requests a ?_,
      rc,up',hs',hserve.tail hd⟩
    rw [hd]
    exact List.mem_cons_of_mem d ha

theorem Streaming.loseToClient (h : Streaming q st) :
    Streaming q { st with toClient := st.toClient.tail } := by
  cases hd : st.toClient with
  | nil =>
    rw [List.tail_nil,← hd]
    exact h
  | cons d rest =>
    obtain ⟨rc,up,hs,hserve⟩ := h.stream
    obtain ⟨up',hs'⟩ := hs.skip_answer hd
    exact ⟨h.phase,h.unsent,h.requestAcks,h.order,h.requests,rc,up',hs',hserve⟩

theorem attempt_spec {k : ℕ} {fails : Bool} (h : st.attempt k fails = some st') :
    (∃ msg, st.sender.attempt k fails = some (st.sender,.sent msg) ∧
      st' = { st with toServer := st.toServer ++ [⟨msg,some k⟩] }) ∨
    ∃ a, st.sender.attempt k fails = some (st.sender.stopThread k,a) ∧ (∀ m, a ≠ .sent m) ∧
      st' = { st with sender := st.sender.stopThread k } := by
  obtain ⟨⟨s',a⟩,ha,rfl⟩ := Option.map_eq_some_iff.mp h
  obtain ⟨t,_,⟨rfl,_,rfl⟩ | ⟨hnot,rfl⟩⟩ := Sender.attempt_cases ha
  · exact .inl ⟨t.msg,ha,rfl⟩
  · refine .inr ⟨a,ha,hnot,?_⟩
    cases a with
    | sent m => exact absurd rfl (hnot m)
    | failed => rfl
    | left => rfl

theorem Streaming.attempt (h : Streaming q st) {k : ℕ} {fails : Bool}
    (hs : st.attempt k fails = some st') : Streaming q st' := by
  obtain ⟨rc,up,hstream,hserve⟩ := h.stream
  rcases attempt_spec hs with ⟨msg,ha,rfl⟩ | ⟨a,ha,hnot,rfl⟩
  · have hlast : ∀ b ∈ [(⟨msg,some k⟩ : Datagram)], b.copyOf.isSome := by simp
    refine ⟨h.phase,h.unsent,h.requestAcks,?_,?_,rc,_,
      ⟨hstream.direct.attempt_sent ha,?_,?_⟩,?_⟩
    · refine List.pairwise_append.mpr ⟨h.order,List.pairwise_singleton _ _,?_⟩
      intro a _ b hb hnone
      have := hlast b hb
      simp [hnone] at this
    · intro a ha hnone
      rcases List.mem_append.mp ha with ha | ha
      · exact h.requests a ha hnone
      · have := hlast a ha
        simp [hnone] at this
    · have hcopies := hstream.copies
      simp only [dataOf,List.filter_append,Function.update_self,List.map_append] at hcopies ⊢
      rw [hcopies]
      rfl
    · rw [Function.update_of_ne (by decide)]
      exact hstream.answers
    · refine hserve.imp_right fun ⟨hc,hst,hall,hrc⟩ => ⟨hc,hst,fun a ha => ?_,hrc⟩
      rcases List.mem_append.mp ha with ha | ha
      · exact hall a ha
      · exact hlast a ha
  · exact ⟨h.phase,h.unsent,h.requestAcks,h.order,h.requests,rc,up,
      ⟨hstream.direct.attempt_stopped ha hnot,hstream.copies,hstream.answers⟩,hserve⟩

theorem receiving_run {server : ServerThread} {rc : Receiver} {msg : Msg} {disk : Disk}
    {r : ServerThread.Outcome} (hstate : server.currentState = .receiving)
    (hrc : server.receiver = some rc) (hmsg : msg.type = .resp ∨ msg.isText eofText)
    (hrun : server.run msg disk = some r) :
    ∃ handled, rc.handleMsg msg = some handled ∧
      (handled.receiver.isComplete = false ∧ r.1.currentState = .receiving ∧
          r.1.receiver = some handled.receiver ∧ r.2 = handled.sent.map .send ∨
        handled.receiver.isComplete = true ∧ r.1.currentState = .waitingForRequest ∧
          (∃ rc', r.1.receiver = some rc' ∧ rc'.windowOrigin = handled.receiver.windowOrigin) ∧
          ∃ payload, r.2 = handled.sent.map .send ++ [.save server.filename payload]) := by
  rw [ServerThread.run_receiving disk hstate hmsg] at hrun
  simp only [ServerThread.dispatchToReceiver,hrc,Option.bind_some,Option.bind_eq_some_iff] at hrun
  obtain ⟨handled,hh,hrun⟩ := hrun
  refine ⟨handled,hh,?_⟩
  simp only [Receiver.getPayload] at hrun
  cases ht : handled.thrown with
  | some e => simp [ht] at hrun
  | none =>
    cases hc : handled.receiver.isComplete with
    | false =>
      simp only [ht,hc,Bool.false_eq_true,if_false] at hrun
      obtain rfl := Option.some.inj hrun
      exact .inl ⟨rfl,hstate,rfl,rfl⟩
    | true =>
      simp only [ht,hc,if_true] at hrun
      obtain rfl := Option.some.inj hrun
      exact .inr ⟨rfl,rfl,⟨_,rfl,rfl⟩,_,rfl⟩

theorem replies_sent (d : Datagram) (acks : List Msg) (saved : List Effect)
    (hsaved : ∀ e ∈ saved, ∀ m, e ≠ .send m) :
    replies d (acks.map .send ++ saved) = acks.map fun ack => ⟨ack,d.copyOf⟩ := by
  have hnil : replies d saved = [] := by
    refine List.filterMap_eq_nil_iff.mpr fun e he => ?_
    cases e with
    | send m => exact absurd rfl (hsaved _ he m)
    | rename _ _ => rfl
    | save _ _ => rfl
  have hacks : replies d (acks.map .send) = acks.map fun ack => ⟨ack,d.copyOf⟩ := by
    simp [replies,List.filterMap_map]
  rw [replies,List.filterMap_append]
  exact (congrArg₂ (· ++ ·) hacks hnil).trans (List.append_nil _)

theorem message_kind (x : Transmission) (i : ℕ) :
    ((x.message i).type = .resp ∨ (x.message i).isText eofText) ∧
      ((x.message i).type = .resp ∨ (x.message i).type = .respErr) := by
  rcases Nat.lt_or_ge i x.count with hlt | hge
  · exact ⟨.inl (x.message_data hlt).1,.inl (x.message_data hlt).1⟩
  · obtain ⟨htype,_,htext,_⟩ := x.message_eof hge
    exact ⟨.inr (by simp [Msg.isText,htype,htext]),.inr htype⟩

theorem Stream.answer {x : Transmission} {rc rc' : Receiver} {up : Peer → List Packet}
    {p : Packet} {ps : List Packet} (acks : List Msg) {rest : List Datagram} (h : Stream x st rc up)
    (hdirect : Direct x .one st.sender rc' (Function.update (Function.update up .one ps)
      Peer.one.other (up Peer.one.other ++ acks.map fun ack => ⟨ack,p.thread,p.delayed⟩)))
    (hps : dataOf rest = ps.map fun p => ⟨p.msg,some p.thread⟩) (server : ServerThread)
    (sent : List Msg) (hsent : sent.map Msg.sequenceNumber = acks.map Msg.sequenceNumber) :
    ∃ up', Stream x { st with
      server := server
      toServer := rest
      toClient := st.toClient ++ sent.map fun m => ⟨m,some p.thread⟩ } rc' up' := by
  refine ⟨_,hdirect,?_,?_⟩
  · rw [Function.update_of_ne (by decide),Function.update_self]
    exact hps
  · have hanswers := h.answers
    rw [show Peer.one.other = .two from rfl,Function.update_self]
    simp only [dataOf,List.filter_append,List.map_append,List.map_map] at hanswers ⊢
    rw [hanswers]
    have hall : (sent.map fun m => (⟨m,some p.thread⟩ : Datagram)).filter (·.copyOf.isSome) =
        sent.map fun m => ⟨m,some p.thread⟩ := by simp [List.filter_map,Function.comp_def]
    rw [hall]
    have hpair := congrArg (List.map fun n => (n,some p.thread)) hsent
    simpa [List.map_map,Function.comp_def] using hpair

theorem Streaming.serve_request (h : Streaming q st) {d : Datagram} {rest : List Datagram}
    {disk : Disk} {r : ServerThread.Outcome} (hd : st.toServer = d :: rest)
    (hc : d.copyOf = none) (hrun : st.server.run d.msg disk = some r) :
    Streaming q { st with
      server := r.1
      toServer := rest
      toClient := st.toClient ++ replies d r.2 } := by
  obtain ⟨rc,up,hs,⟨hcomplete,hstate,hrc⟩ | ⟨_,_,hall,_⟩⟩ := h.stream
  swap
  · have := hall d (by simp [hd])
    simp [hc] at this
  have htype : d.msg.type = .post := by
    rw [h.requests d (by simp [hd]) hc]
    rfl
  obtain ⟨server,hpost,hstate',_,hreceiver⟩ := ServerThread.run_post disk htype (.inr hstate)
    (by simp [hrc])
  obtain rfl := Option.some.inj (hrun.symm.trans hpost)
  have horder := h.order
  rw [hd,List.pairwise_cons] at horder
  refine ⟨h.phase,h.unsent,h.requestAcks,horder.2,
    fun a ha => h.requests a (by simp [hd,ha]),rc,up,⟨hs.direct,?_,?_⟩,
    .inl ⟨hcomplete,hstate',by rw [hreceiver,if_pos hstate,hrc]⟩⟩
  · rw [← hs.copies,hd,dataOf_cons,if_neg (by simp [hc])]
  · have hnone : dataOf (st.toClient ++ replies d [st.server.sendAck d.msg]) =
        dataOf st.toClient := by
      simp [dataOf,replies,ServerThread.sendAck,ServerThread.sendMsg,hc]
    rw [hnone]
    exact hs.answers

section Copy

variable {x : Transmission} {rc : Receiver} {up : Peer → List Packet} {p : Packet}
  {ps : List Packet} {rest : List Datagram} {disk : Disk} {r : ServerThread.Outcome}

theorem Stream.serve_receiving (hs : Stream x st rc up) (hup : up .one = p :: ps)
    (hps : dataOf rest = ps.map fun p => ⟨p.msg,some p.thread⟩)
    (hrest : ∀ a ∈ rest, a.copyOf.isSome) (hcomplete : rc.isComplete = false)
    (hstate : st.server.currentState = .receiving) (hrc : st.server.receiver = some rc)
    (hmsg : p.msg.type = .resp ∨ p.msg.isText eofText)
    (hrun : st.server.run p.msg disk = some r) :
    ∃ rc' up', Stream x { st with
        server := r.1
        toServer := rest
        toClient := st.toClient ++ replies ⟨p.msg,some p.thread⟩ r.2 } rc' up' ∧
      Serves { st with
        server := r.1
        toServer := rest
        toClient := st.toClient ++ replies ⟨p.msg,some p.thread⟩ r.2 } rc' := by
  obtain ⟨handled,hh,hcases⟩ := receiving_run hstate hrc hmsg hrun
  have hdirect := hs.direct.goes (Transfer.hop_receive hup hcomplete hh)
  obtain ⟨up',hs'⟩ := hs.answer handled.sent hdirect hps r.1 handled.sent rfl
  rcases hcases with ⟨hc',hstate',hrc',he⟩ | ⟨hc',hstate',hrc',payload,he⟩
  · have hreplies := replies_sent ⟨p.msg,some p.thread⟩ handled.sent [] (by simp)
    rw [List.append_nil] at hreplies
    rw [he,hreplies]
    exact ⟨_,up',hs',.inl ⟨hc',hstate',hrc'⟩⟩
  · rw [he,replies_sent _ _ _ (by simp)]
    exact ⟨_,up',hs',.inr ⟨hc',hstate',hrest,hrc'⟩⟩

theorem Stream.serve_complete (hs : Stream x st rc up) (hup : up .one = p :: ps)
    (hps : dataOf rest = ps.map fun p => ⟨p.msg,some p.thread⟩) (hcomplete : rc.isComplete = true) :
    ∃ up', Stream x { st with
      toServer := rest
      toClient := st.toClient ++
        replies ⟨p.msg,some p.thread⟩ [st.server.sendAck p.msg] } rc up' :=
  hs.answer [rc.ackMsg p.msg.sequenceNumber] (hs.direct.goes (Transfer.hop_answer hup hcomplete)) hps st.server
    [⟨p.msg.clientId,st.server.serverId,.ack,0,p.msg.sequenceNumber,Buffer.copyIn []⟩] rfl

end Copy

theorem Streaming.copies_behind (h : Streaming q st) {d : Datagram} {rest : List Datagram}
    (hd : st.toServer = d :: rest) (hc : d.copyOf.isSome) : ∀ a ∈ rest, a.copyOf.isSome := by
  have horder := h.order
  rw [hd,List.pairwise_cons] at horder
  intro a ha
  rw [Option.isSome_iff_ne_none] at hc ⊢
  exact fun hnone => hc (horder.1 a ha hnone)

theorem Streaming.serve_copy (hne : q.transmission.contents ≠ []) (h : Streaming q st)
    {d : Datagram} {rest : List Datagram} {disk : Disk} {r : ServerThread.Outcome}
    (hd : st.toServer = d :: rest) (hc : d.copyOf.isSome)
    (hrun : st.server.run d.msg disk = some r) :
    Streaming q { st with
      server := r.1
      toServer := rest
      toClient := st.toClient ++ replies d r.2 } := by
  have hrest := h.copies_behind hd hc
  have hrequests : ∀ a ∈ rest, a.copyOf = none → a.msg = requestMsg q :=
    fun a ha => h.requests a (by simp [hd,ha])
  have horder := (List.pairwise_cons.mp (hd ▸ h.order)).2
  obtain ⟨rc,up,hs,hserve⟩ := h.stream
  obtain ⟨p,ps,hup,rfl,hps⟩ := hs.head_copy hd hc
  have hmsg := hs.direct.message hne (p := p) (by simp [hup])
  obtain ⟨hkind,hresp⟩ := message_kind q.transmission p.thread
  rw [← hmsg] at hkind hresp
  rcases hserve with ⟨hcomplete,hstate,hrc⟩ | ⟨hcomplete,hstate,-,rc',hrc,horigin⟩
  · exact ⟨h.phase,h.unsent,h.requestAcks,horder,hrequests,
      hs.serve_receiving hup hps hrest hcomplete hstate hrc hkind hrun⟩
  · rw [ServerThread.run_waiting_resp disk hstate hresp] at hrun
    obtain rfl := Option.some.inj hrun
    obtain ⟨up',hs'⟩ := hs.serve_complete hup hps hcomplete
    exact ⟨h.phase,h.unsent,h.requestAcks,horder,hrequests,rc,up',hs',
      .inr ⟨hcomplete,hstate,hrest,rc',hrc,horigin⟩⟩

theorem Streaming.serve (hne : q.transmission.contents ≠ []) (h : Streaming q st) {disk : Disk}
    (hs : st.serve disk = some st') : Streaming q st' := by
  obtain ⟨d,rest,r,hd,hrun,rfl⟩ := serve_spec hs
  cases hc : d.copyOf with
  | none => exact h.serve_request hd hc hrun
  | some k => exact h.serve_copy hne hd (by simp [hc]) hrun

theorem Streaming.receive (h : Streaming q st) (hack : ¬TakesRequestAck q st .receive)
    (hs : st.receive q = some st') : Streaming q st' := by
  simp only [Upload.receive] at hs
  split at hs
  · cases hs
  rename_i d rest hd
  obtain ⟨rc,up,hstream,hserve⟩ := h.stream
  cases hphase : st.phase with
  | requesting => exact absurd hphase h.phase
  | uploaded n => simp [hphase] at hs
  | sending =>
    have hnot : isRequestAck q d = false := by
      simpa [TakesRequestAck,hphase,hd] using hack
    simp only [hphase,hnot] at hs
    split_ifs at hs with htaken
    · obtain ⟨hid,htype⟩ := htaken
      have hc : d.copyOf.isSome := by
        simpa [isRequestAck,hid,htype,Option.isSome_iff_ne_none] using hnot
      obtain ⟨p,ps,hup,hnum,hps⟩ := hstream.head_answer hd hc
      obtain ⟨sender,hsender,rfl⟩ := Option.map_eq_some_iff.mp hs
      rw [hnum] at hsender
      refine ⟨?_,?_,h.requestAcks,h.order,h.requests,rc,_,
        ⟨hstream.direct.goes (Transfer.hop_acknowledge hup (h.unsent hphase) hsender),?_,?_⟩,hserve⟩
      · dsimp only
        split_ifs <;> simp
      · dsimp only
        split_ifs with hsent
        · simp
        · exact fun _ => by simpa using hsent
      · rw [Function.update_of_ne (by decide)]
        exact hstream.copies
      · rw [show Peer.one.other = .two from rfl,Function.update_self]
        exact hps
    · obtain rfl := Option.some.inj hs
      obtain ⟨up',hs'⟩ := hstream.skip_answer hd
      exact ⟨by simp,fun _ => h.unsent hphase,h.requestAcks,h.order,h.requests,rc,up',
        ⟨hs'.direct,hs'.copies,hs'.answers⟩,hserve⟩

theorem Requesting.loseToServer (h : Requesting q st) :
    Requesting q { st with toServer := st.toServer.tail } :=
  ⟨h.phase,h.sender,h.requestAcks,fun d hd => h.requests d (List.mem_of_mem_tail hd),h.acks,
    h.serverId,h.server⟩

theorem Requesting.loseToClient (h : Requesting q st) :
    Requesting q { st with toClient := st.toClient.tail } := by
  refine ⟨h.phase,h.sender,h.requestAcks,h.requests,
    fun d hd => h.acks d (List.mem_of_mem_tail hd),h.serverId,
    h.server.imp_left fun ⟨hs,hempty,hrc⟩ => ⟨hs,?_,hrc⟩⟩
  rw [hempty]
  rfl

theorem Requesting.request (h : Requesting q st) :
    Requesting q { st with toServer := st.toServer ++ [⟨requestMsg q,none⟩] } := by
  refine ⟨h.phase,h.sender,h.requestAcks,fun d hd => ?_,h.acks,h.serverId,h.server⟩
  rcases List.mem_append.mp hd with hd | hd
  · exact h.requests d hd
  · exact List.mem_singleton.mp hd

theorem Requesting.attempt (h : Requesting q st) (k : ℕ) (fails : Bool) :
    st.attempt k fails = none := by
  simp [Upload.attempt,Sender.attempt,h.sender,Sender.create]

def Inv (q : UploadRequest) (st : Upload) : Prop := Requesting q st ∨ Streaming q st

theorem Inv.slides (hne : q.transmission.contents ≠ []) (h : Inv q st) :
    SlidesPastAccepted q st :=
  h.elim Requesting.slides (Streaming.slides hne)

theorem Inv.requestAcks_le (h : Inv q st) : st.requestAcks ≤ 1 := by
  rcases h with h | h <;> simp [h.requestAcks]

theorem Inv.step (hne : q.transmission.contents ≠ []) (h : Inv q st) {e : Event}
    (hack : ¬TakesRequestAck q st e) (hs : (system q).step st e = some st') : Inv q st' := by
  cases e with
  | request =>
    simp only [system,Upload.step] at hs
    split_ifs at hs with hphase
    obtain rfl := Option.some.inj hs
    rcases h with h | h
    · exact .inl h.request
    · exact absurd hphase h.phase
  | attempt k fails =>
    rcases h with h | h
    · exact absurd (hs.symm.trans (h.attempt k fails)) (by simp)
    · exact .inr (h.attempt hs)
  | loseToServer =>
    obtain rfl := Option.some.inj hs
    exact h.imp Requesting.loseToServer Streaming.loseToServer
  | loseToClient =>
    obtain rfl := Option.some.inj hs
    exact h.imp Requesting.loseToClient Streaming.loseToClient
  | serve disk => exact h.imp (·.serve hs) (·.serve hne hs)
  | receive => exact .inr (h.elim (·.receive hne hs) (·.receive hack hs))

theorem receive_requestAcks (h : st.receive q = some st') :
    ∃ d rest, st.toClient = d :: rest ∧
      st'.requestAcks = st.requestAcks + (isRequestAck q d).toNat := by
  simp only [Upload.receive] at h
  split at h
  · cases h
  rename_i d rest hd
  refine ⟨d,rest,hd,?_⟩
  cases hphase : st.phase with
  | uploaded n => simp [hphase] at h
  | requesting =>
    simp only [hphase] at h
    split_ifs at h with hskip
    · exact Option.some.inj h ▸ rfl
    · obtain ⟨s,_,rfl⟩ := Option.map_eq_some_iff.mp h
      rfl
  | sending =>
    simp only [hphase] at h
    split_ifs at h with htaken
    · obtain ⟨s,_,rfl⟩ := Option.map_eq_some_iff.mp h
      rfl
    · exact Option.some.inj h ▸ rfl

theorem step_requestAcks {e : Event} (h : (system q).step st e = some st') :
    st.requestAcks ≤ st'.requestAcks ∧
      (TakesRequestAck q st e → st'.requestAcks = st.requestAcks + 1) := by
  have hkeep : e ≠ .receive → st'.requestAcks = st.requestAcks := by
    intro he
    cases e with
    | request =>
      simp only [system,Upload.step] at h
      split_ifs at h
      exact Option.some.inj h ▸ rfl
    | attempt k fails =>
      rcases attempt_spec h with ⟨_,_,rfl⟩ | ⟨_,_,_,rfl⟩ <;> rfl
    | loseToServer => exact Option.some.inj h ▸ rfl
    | loseToClient => exact Option.some.inj h ▸ rfl
    | serve disk =>
      obtain ⟨_,_,_,_,_,rfl⟩ := serve_spec h
      rfl
    | receive => exact absurd rfl he
  by_cases he : e = .receive
  · subst he
    obtain ⟨d,rest,hd,hacks⟩ := receive_requestAcks h
    refine ⟨by omega,fun ⟨_,_,d',rest',hd',hack⟩ => ?_⟩
    obtain rfl : d' = d := by simp_all
    rw [hacks,hack]
    rfl
  · exact ⟨(hkeep he).ge,fun ht => absurd ht.1 he⟩

theorem run_requestAcks {events : List Event} (h : (system q).run st events = some st') :
    st.requestAcks ≤ st'.requestAcks := by
  induction events generalizing st with
  | nil => exact Option.some.inj h ▸ le_rfl
  | cons e events ih =>
    obtain ⟨mid,hmid,hrun⟩ := Option.bind_eq_some_iff.mp h
    exact (step_requestAcks hmid).1.trans (ih hrun)

theorem inv_along_iff (hne : q.transmission.contents ≠ []) {events : List Event} (h : Inv q st)
    (hrun : (system q).run st events = some st') :
    (system q).Along (fun st e st' => SlidesPastAccepted q st' ∧ ¬TakesRequestAck q st e)
      st events ↔ st'.requestAcks ≤ 1 := by
  induction events generalizing st with
  | nil => exact iff_of_true trivial (Option.some.inj hrun ▸ h.requestAcks_le)
  | cons e events ih =>
    obtain ⟨mid,hmid,hrest⟩ := Option.bind_eq_some_iff.mp hrun
    by_cases hack : TakesRequestAck q st e
    · have hone : st.requestAcks = 1 := by
        rcases h with h | h
        · exact absurd (h.phase.symm.trans hack.2.1) (by simp)
        · exact h.requestAcks
      have htwo := (step_requestAcks hmid).2 hack
      have := run_requestAcks hrest
      refine iff_of_false (fun hall => (hall mid hmid).1.2 hack) (by omega)
    · have hinv := h.step hne hack hmid
      refine ⟨fun hall => (ih hinv hrest).mp (hall mid hmid).2,fun hle next hnext => ?_⟩
      obtain rfl := Option.some.inj (hmid.symm.trans hnext)
      exact ⟨⟨hinv.slides hne,hack⟩,(ih hinv hrest).mpr hle⟩

def oneByteUpload : UploadRequest := ⟨7,[97],⟨nullServerId,5,[65],2⟩⟩

def beforeUpload : Upload where
  phase := .requesting
  sender := Sender.create nullServerId 5
  server := (ServerThread.create 7).initServerWithClientData (requestMsg oneByteUpload)
  toServer := []
  toClient := []
  requestAcks := 0

theorem beforeUpload_init : Init oneByteUpload beforeUpload :=
  ⟨rfl,rfl,rfl,rfl,rfl,rfl,rfl,rfl⟩

end Upload
end FtpOverUdp
