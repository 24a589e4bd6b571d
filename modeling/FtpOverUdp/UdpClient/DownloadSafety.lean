import FtpOverUdp.Common.SenderThreads
import FtpOverUdp.UdpClient.DownloadClient
import FtpOverUdp.UdpServer.RunSpec

namespace FtpOverUdp

open Library

namespace Download

variable {q : DownloadRequest} {st st' : Download} {contents : List UInt8} {n : ℕ}
  {seen taken : List DownloadParcel} {p : DownloadParcel} {path : Path DownloadParcel}
  {disk : Disk} {s : Sender}

structure Idle (q : DownloadRequest) (st : Download) : Prop where
  state : st.server.currentState = .waitingForRequest
  sender : st.server.sender = some (Sender.create q.serverIdentifier q.clientIdentifier)
  readings : st.readings = []

-- once the transmission has ended no request is left that could start another one
structure Ended (q : DownloadRequest) (st : Download) (s : Sender) : Prop where
  complete : s.isComplete = true
  state : st.server.currentState = .waitingForRequest
  isAcked : st.isAcked = true
  number : st.server.sequenceNumber = s.finalSequenceNumber
  unrequested : ∀ p ∈ (st.path.line .one []).contents, p.msg.type ≠ requestType q

structure Empty (q : DownloadRequest) (s : Sender) : Prop where
  hollow : s.Hollow (Sender.create q.serverIdentifier q.clientIdentifier)
  packets : s.numberOfPackets = 0
  seed : s.sequenceSeed = q.sequenceNumber.val

structure Serves (q : DownloadRequest) (contents : List UInt8) (st : Download) (s : Sender)
    (taken : List DownloadParcel) : Prop where
  sender : st.server.sender = some s
  readings : st.readings = [contents]
  fits : contents.length < 2 ^ 31
  engine : contents ≠ [] ∧ s.Transmits (transmission q contents) 0 ∨ contents = [] ∧ Empty q s
  flagged : ∀ i, s.flag i = true →
    ∃ p ∈ taken, p.msg.type = .ack ∧ p.msg.sequenceNumber = (residue q.sequenceNumber i).val
  state : s.isComplete = false ∧ st.server.currentState = .sending ∨ Ended q st s

def Inv (q : DownloadRequest) (st : Download) : Prop := ∃ seen taken,
  (Idle q st ∧ ∀ contents, Client q contents 0 st seen taken) ∨
    ∃ contents s, Serves q contents st s taken ∧ Client q contents s.threads.length st seen taken

theorem inv_init (h : Init q st) : Inv q st := by
  refine ⟨[],[],.inl ⟨⟨h.state,h.sender,h.readings⟩,fun contents => ?_⟩⟩
  have hpath := h.path
  obtain ⟨rc,hrc⟩ := h.receiver
  refine ⟨⟨?_,?_,?_,?_⟩,?_,fun hn => absurd hn (lt_irrefl 0),Nat.zero_le _,
    fun hn => absurd hn (Nat.not_lt_zero _)⟩
  · refine DelayLine.ordered_of_all (fun y hy x hx => ?_) fun _ _ => trivial
    rw [(hpath .one y hy).2.2]
    exact fun hc => by cases hc
  · intro p hp
    obtain ⟨htype,_,hacked⟩ := hpath .one p hp
    exact ⟨.inl htype,fun hc => by rw [hacked] at hc; cases hc⟩
  · refine DelayLine.ordered_of_all (fun y hy x hx => ?_) fun _ _ => trivial
    rw [(hpath .two y hy).2.1]
    exact fun i hi => by cases hi
  · intro p hp
    obtain ⟨htype,hthread,_⟩ := hpath .two p hp
    refine ⟨fun k hk => ?_,fun _ => .inl htype⟩
    cases hthread.symm.trans hk
  · rw [View,h.phase,hrc,h.isAcked]
    exact ⟨Bool.false_ne_true.elim,rfl,Transfer.fills_start rc (transmission q contents)⟩

theorem requestType_cases (q : DownloadRequest) :
    requestType q = .getFile ∨ requestType q = .getList := by
  unfold requestType
  cases q.operation with
  | get filename => exact .inl rfl
  | list => exact .inr rfl

theorem told_type {isAcked : Bool} (h : Told q isAcked n p) :
    p.msg.type = .handshake ∨ p.msg = requestMsg q ∨ p.msg.type = .ack := by
  rcases h.kind with hshake | ⟨hrequest,_⟩ | ⟨hack,_⟩
  · exact .inl hshake
  · exact .inr (.inl hrequest)
  · exact .inr (.inr hack)

theorem nsf_cString : (Buffer.copyIn (nsfText ++ [0])).cString = nsfText := by decide

-- a file the server's thread cannot open or load
def Missing (disk : Disk) (msg : Msg) : Prop := ∀ contents, requested msg disk = some contents →
  2 ^ 31 ≤ Sender.packetCount contents.length * bufferLength

-- where a turn of the server's thread leaves it while it waits for a request
inductive Turn (q : DownloadRequest) (server : ServerThread) (msg : Msg) (disk : Disk)
    (r : ServerThread.Outcome) : Prop
  | quiet (hsame : r = (server,[]))
  | greeted (reply : Msg) (hsame : r = (server,[.send reply])) (htype : reply.type = .handshake)
  | refused (reply : Msg) (hout : r.2 = [.send reply]) (hrefusal : Refusal q reply)
      (hstate : r.1.currentState = .waitingForRequest) (hsender : r.1.sender = server.sender)
      (hmsg : msg = requestMsg q) (hget : requestType q = .getFile)
      (hmissing : server.sender.isSome → Missing disk msg)
  | started (contents : List UInt8) (s s' : Sender) (hmsg : msg = requestMsg q)
      (hread : requested msg disk = some contents) (hold : server.sender = some s)
      (hstart : s.startTransmission contents q.sequenceNumber = some s')
      (hnew : r.1.sender = some s') (hstate : r.1.currentState = .sending) (hout : r.2 = [])

theorem run_unrequested {server : ServerThread} {msg : Msg} {r : ServerThread.Outcome}
    (hstate : server.currentState = .waitingForRequest)
    (htype : msg.type = .handshake ∨ msg.type = .ack) (hrun : server.run msg disk = some r) :
    r = (server,[]) ∨ ∃ reply : Msg, r = (server,[.send reply]) ∧ reply.type = .handshake := by
  rcases htype with htype | htype
  · simp only [ServerThread.run,hstate,ServerThread.handleRequest,htype] at hrun
    obtain ⟨effect,he,rfl⟩ := Option.map_eq_some_iff.mp hrun
    obtain ⟨reply,rfl,hreply,_⟩ := ServerThread.startHandshake_spec he
    exact .inr ⟨reply,rfl,hreply⟩
  · simp only [ServerThread.run,hstate,ServerThread.handleRequest,htype] at hrun
    exact .inl (Option.some.inj hrun).symm

theorem started_turn {server server' : ServerThread} {disk : Disk} {r : ServerThread.Outcome}
    {contents : List UInt8} (hread : requested (requestMsg q) disk = some contents)
    (hs : ({ server with
      currentState := .sending
      sequenceNumber := q.sequenceNumber.val } : ServerThread).startSender (requestMsg q) contents =
        some server') (hr : r = (server',[])) : Turn q server (requestMsg q) disk r := by
  obtain ⟨s,s',hold,hstart,hnew⟩ := ServerThread.startSender_sender hs
  obtain rfl := hr
  exact .started contents s s' rfl hread hold hstart hnew (ServerThread.startSender_spec hs).2 rfl

theorem missing_of_none {sending : ServerThread} (htype : (requestMsg q).type = .getFile)
    (hnone : (ServerThread.getFileContents (requestMsg q) disk).bind
      (sending.startSender (requestMsg q)) = none) (hsome : sending.sender.isSome) :
    Missing disk (requestMsg q) := by
  intro contents hread
  simp only [requested,htype] at hread
  by_contra hfits
  obtain ⟨s,hs⟩ := Option.isSome_iff_exists.mp hsome
  have hstarts : (s.startTransmission contents q.sequenceNumber).isSome :=
    Sender.startTransmission_isSome (Nat.lt_of_not_le hfits)
  obtain ⟨s',hs'⟩ := Option.isSome_iff_exists.mp hstarts
  obtain ⟨loaded,hload,hsend⟩ := Option.bind_eq_some_iff.mp hs'
  rw [hread,Option.bind_some,ServerThread.startSender,hs,Option.bind_some] at hnone
  change ((s.initializePayload (some contents) q.sequenceNumber.val).bind _) = none at hnone
  rw [hload,Option.bind_some,hsend] at hnone
  cases hnone

theorem run_requested {server : ServerThread} {disk : Disk} {r : ServerThread.Outcome}
    (hstate : server.currentState = .waitingForRequest)
    (hrun : server.run (requestMsg q) disk = some r) : Turn q server (requestMsg q) disk r := by
  rcases requestType_cases q with htype | htype
  · have htype : (requestMsg q).type = .getFile := htype
    simp only [ServerThread.run,hstate,ServerThread.handleRequest,htype,
      ServerThread.sendFile] at hrun
    split at hrun
    · rename_i server' hs
      obtain ⟨contents,hcontents,hs⟩ := Option.bind_eq_some_iff.mp hs
      refine started_turn ?_ hs (Option.some.inj hrun).symm
      simp only [requested,htype]
      exact hcontents
    · rename_i hnone
      obtain rfl := Option.some.inj hrun
      refine .refused _ rfl ⟨by simp [Msg.isText,nsf_cString],rfl⟩ rfl rfl rfl htype ?_
      have hmissing := missing_of_none htype hnone
      exact hmissing
  · have htype : (requestMsg q).type = .getList := htype
    simp only [ServerThread.run,hstate,ServerThread.handleRequest,htype,
      ServerThread.sendList] at hrun
    obtain ⟨server',hs,rfl⟩ := Option.map_eq_some_iff.mp hrun
    obtain ⟨contents,hcontents,hs⟩ := Option.bind_eq_some_iff.mp hs
    refine started_turn ?_ hs rfl
    simp only [requested,htype]
    exact hcontents

theorem run_waiting {server : ServerThread} {r : ServerThread.Outcome} {isAcked : Bool}
    (hstate : server.currentState = .waitingForRequest) (h : Told q isAcked n p)
    (hrun : server.run p.msg disk = some r) : Turn q server p.msg disk r := by
  have hother : p.msg.type = .handshake ∨ p.msg.type = .ack → Turn q server p.msg disk r := by
    intro htype
    rcases run_unrequested hstate htype hrun with hsame | ⟨reply,hsame,hreply⟩
    · exact .quiet hsame
    · exact .greeted reply hsame hreply
  rcases told_type h with hshake | hrequest | hack
  · exact hother (.inl hshake)
  · rw [hrequest] at hrun ⊢
    exact run_requested hstate hrun
  · exact hother (.inr hack)

-- the steps of the server leave the client's own state alone
structure Kept (st st' : Download) : Prop where
  phase : st'.phase = st.phase
  isAcked : st'.isAcked = st.isAcked
  receiver : st'.receiver = st.receiver
  refusals : st.refusals ≤ st'.refusals

theorem View.kept {n' : ℕ} (hk : Kept st st') (hn : n ≤ n') (h : View q contents n st seen) :
    View q contents n' st' seen := by
  have hr := hk.refusals
  cases hphase : st.phase with
  | receiving =>
    simp only [View,hk.phase,hphase,hk.isAcked,hk.receiver] at h ⊢
    exact ⟨fun ha => (h.1 ha).trans_le hn,h.2⟩
  | flushing m | finished m payload =>
    simp only [View,hk.phase,hphase,hk.isAcked,hk.receiver] at h ⊢
    exact ⟨⟨h.1.1,h.1.2.trans_le hn⟩,h.2⟩
  | catching | uncaught =>
    simp only [View,hk.phase,hphase] at h ⊢
    exact ⟨h.1.trans_le hr,h.2⟩
  | noSuchFile =>
    simp only [View,hk.phase,hphase] at h ⊢
    exact h.trans_le hr

theorem Client.kept {taken' : List DownloadParcel} (h : Client q contents n st seen taken)
    (hk : Kept st st') (hlines : Lines q contents n st'.path st.isAcked st'.refusals seen taken') :
    Client q contents n st' seen taken' :=
  ⟨hk.isAcked ▸ hlines,h.view.kept hk le_rfl,h.fits,h.span,fun hn => hk.isAcked ▸ h.begun hn⟩

theorem near_none (a : Option ℕ) : Transfer.Near a none := fun _ _ _ hj => by cases hj

-- what `serve` does, by the turn that the server's thread takes
theorem serve_turn (hs : st.serve disk = some st') : ∃ p path r,
    st.path.take .two = some (p,path) ∧ st.server.run p.msg disk = some r ∧ st' = { st with
      server := r.1
      path := reply path r.2
      readings := if st.server.currentState = .waitingForRequest ∧ r.1.currentState = .sending
        then st.readings ++ (requested p.msg disk).toList else st.readings
      refusals := st.refusals + r.2.countP isRefusal } := by
  obtain ⟨⟨p,path⟩,htake,hs⟩ := Option.bind_eq_some_iff.mp hs
  obtain ⟨r,hrun,rfl⟩ := Option.map_eq_some_iff.mp hs
  exact ⟨p,path,r,htake,hrun,rfl⟩

theorem attempt_spec {k : ℕ} {fails : Bool} (hs : st.attempt k fails = some st') :
    ∃ s s' a, st.server.sender = some s ∧ s.attempt k fails = some (s',a) ∧
      Kept st st' ∧ st'.server = { st.server with sender := some s' } ∧
      st'.readings = st.readings ∧ st'.refusals = st.refusals ∧
      ((∃ msg, a = .sent msg ∧ st'.path = st.path.send .two ⟨msg,some k,false⟩) ∨
        (∀ msg, a ≠ .sent msg) ∧ st'.path = st.path) := by
  obtain ⟨s,hsender,hs⟩ := Option.bind_eq_some_iff.mp hs
  obtain ⟨⟨s',a⟩,hattempt,rfl⟩ := Option.map_eq_some_iff.mp hs
  refine ⟨s,s',a,hsender,hattempt,⟨rfl,rfl,rfl,le_rfl⟩,rfl,rfl,rfl,?_⟩
  cases a with
  | sent msg => exact .inl ⟨msg,rfl,rfl⟩
  | failed => exact .inr ⟨by simp,rfl⟩
  | left => exact .inr ⟨by simp,rfl⟩

theorem Idle.attempt (h : Idle q st) {k : ℕ} {fails : Bool} : st.attempt k fails = none := by
  simp [Download.attempt,h.sender,Sender.attempt,Sender.create]

-- a thread that still sends is at the origin or above it
theorem Serves.attempt (h : Serves q contents st s taken)
    (hclient : Client q contents s.threads.length st seen taken) {k : ℕ} {fails : Bool}
    (hs : st.attempt k fails = some st') :
    ∃ s', Serves q contents st' s' taken ∧
      Client q contents s'.threads.length st' seen taken := by
  obtain ⟨s₀,s',a,hsender,hattempt,hkept,hserver,hreadings,hrefusals,hpath⟩ := attempt_spec hs
  obtain rfl := Option.some.inj (h.sender.symm.trans hsender)
  have hstep : s.step (.attempt k fails) = some s' := by
    rw [Sender.step,hattempt]
    rfl
  have hline : (st'.path.line .one []).contents = (st.path.line .one []).contents := by
    rcases hpath with ⟨msg,_,hp⟩ | ⟨_,hp⟩
    · rw [hp,Path.line_send_other _ _ _ (by decide)]
    · rw [hp]
  have hsame : s'.isComplete = s.isComplete ∧ s'.threads.length = s.threads.length ∧
      s'.finalSequenceNumber = s.finalSequenceNumber ∧ s'.numberOfPackets = s.numberOfPackets ∧
      s'.sequenceSeed = s.sequenceSeed ∧ ∀ j, s'.flag j = s.flag j := by
    obtain ⟨t,ht,⟨_,_,rfl⟩ | ⟨_,rfl⟩⟩ := Sender.attempt_cases hattempt
    · exact ⟨rfl,rfl,rfl,rfl,rfl,fun _ => rfl⟩
    · exact ⟨rfl,by simp [Sender.stopThread],rfl,rfl,rfl,Sender.flag_stopThread s k⟩
  obtain ⟨hcomplete,hlength,hfinal,hpackets,hseed,hflag⟩ := hsame
  refine ⟨s',⟨by rw [hserver],hreadings.trans h.readings,h.fits,?_,
    fun i hi => h.flagged i (hflag i ▸ hi),?_⟩,?_⟩
  · rcases h.engine with ⟨hne,ht⟩ | ⟨he,hempty⟩
    · exact .inl ⟨hne,(ht.attempt hstep).1⟩
    · exact .inr ⟨he,hempty.hollow.step hstep,hpackets.trans hempty.packets,
        hseed.trans hempty.seed⟩
  · rcases h.state with ⟨hopen,hstate⟩ | hended
    · exact .inl ⟨hcomplete.trans hopen,hserver ▸ hstate⟩
    · refine .inr ⟨hcomplete.trans hended.complete,hserver ▸ hended.state,
        hkept.isAcked.trans hended.isAcked,?_,hline ▸ hended.unrequested⟩
      rw [hfinal,hserver]
      exact hended.number
  · rw [hlength]
    refine hclient.kept hkept ?_
    rw [hrefusals]
    rcases hpath with ⟨msg,rfl,hp⟩ | ⟨_,hp⟩
    · obtain ⟨t,ht,⟨ha,hacked,_⟩ | ⟨hnot,_⟩⟩ := Sender.attempt_cases hattempt
      · obtain rfl := Sender.Attempt.sent.inj ha
        rw [hp]
        have hin := (List.getElem?_eq_some_iff.mp ht).1
        rcases h.engine with ⟨_,htransmits⟩ | ⟨_,hempty⟩
        · have hwindow := htransmits.running.window
          have hlen := hwindow.length
          have hspan := hwindow.span
          have hmsg := hwindow.message k (by omega)
          rw [Nat.zero_add,ht,Option.map_some] at hmsg
          have hge : s.currentWindowOrigin ≤ k := by
            by_contra hlt
            have := hwindow.past k (by omega)
            simp [Sender.flag,ht,hacked] at this
          refine hclient.lines.offer ⟨fun j hj => ?_,fun hc => by cases hc⟩ ?_
          · obtain rfl := Option.some.inj hj
            exact ⟨hin,Option.some.inj hmsg⟩
          · intro y hy i hi j hj
            obtain rfl := Option.some.inj hj
            have := ((hclient.lines.offered y hy).copies i hi).1
            simp only [Transfer.near,windowSize] at hspan ⊢
            omega
        · rw [hempty.hollow.length] at hin
          exact absurd hin (Nat.not_lt_zero _)
      · exact absurd rfl (hnot msg)
    · rw [hp]
      exact hclient.lines

theorem Lines.replied {isAcked : Bool} {refusals : ℕ}
    (h : Lines q contents n path isAcked refusals seen taken) {reply : Msg}
    (hkind : reply.type = .handshake ∨ Refusal q reply ∧ 0 < refusals) :
    Lines q contents n (Download.reply path [.send reply]) isAcked refusals seen taken := by
  refine h.offer ⟨fun k hk => ?_,fun _ => hkind⟩ fun y _ => near_none y.thread
  cases hk

theorem handshake_not_refusal {reply : Msg} (h : reply.type = .handshake) :
    [Effect.send reply].countP isRefusal = 0 := by
  simp [isRefusal,Msg.isText,h]

-- the first copy of the request that finds its file starts the only transmission
theorem Idle.start (h : Idle q st) (hclient : ∀ contents, Client q contents 0 st seen taken)
    (htake : st.path.take .two = some (p,path)) {r : ServerThread.Outcome} {s₀ s : Sender}
    (hread : requested p.msg disk = some contents) (hold : st.server.sender = some s₀)
    (hstart : s₀.startTransmission contents q.sequenceNumber = some s)
    (hnew : r.1.sender = some s) (hstate : r.1.currentState = .sending) :
    let st' := { st with
      server := r.1
      path := path
      readings := st.readings ++ (requested p.msg disk).toList }
    Serves q contents st' s (taken ++ [p]) ∧
      Client q contents s.threads.length st' seen (taken ++ [p]) := by
  intro st'
  obtain rfl := Option.some.inj (h.sender.symm.trans hold)
  obtain ⟨hfits,hpackets,hseed⟩ := Sender.start_carries hstart
  have hlines := ((hclient contents).lines.take htake).1
  have hreadings : st'.readings = [contents] := by
    simp [st',h.readings,hread]
  have hkept : Kept st st' := ⟨rfl,rfl,rfl,le_rfl⟩
  rcases eq_or_ne contents [] with he | hne
  · subst he
    have hhollow : s.Hollow (Sender.create q.serverIdentifier q.clientIdentifier) :=
      Sender.hollow_of_reachable ⟨s,hstart,.refl⟩
    have hzero : s.threads.length = 0 := hhollow.length
    refine ⟨⟨hnew,hreadings,hfits,.inr ⟨rfl,hhollow,hpackets,hseed⟩,fun i hi => ?_,
      .inl ⟨(Sender.start_empty hstart).2,hstate⟩⟩,?_⟩
    · rw [hhollow.flag] at hi
      simp [Sender.flag,Sender.create] at hi
    · rw [hzero]
      exact (hclient []).kept hkept hlines
  · obtain ⟨s₁,h₁,h₂⟩ := Sender.startTransmission_spec hstart
    obtain ⟨hrun,horigin,hflag,hcomplete⟩ := Sender.Running.start hne h₁ h₂
    have htransmits : s.Transmits (transmission q contents) 0 := Sender.Transmits.start hne hstart
    have hlength := htransmits.running.window.length
    have hspan := ((transmission q contents).span_le _ htransmits.running.le)
    have hpos := ((transmission q contents).count_bounds hne).1
    have hle : s.threads.length ≤ (transmission q contents).count := by
      rw [hlength,horigin,Transmission.span,if_pos hpos]
      omega
    refine ⟨⟨hnew,hreadings,hfits,.inl ⟨hne,htransmits⟩,fun i hi => ?_,.inl ⟨hcomplete,hstate⟩⟩,
      hlines.mono id (Nat.zero_le _) le_rfl,(hclient contents).view.kept hkept (Nat.zero_le _),
      fun _ => ⟨hne,hfits⟩,hle.trans (Nat.le_succ _),fun hlt => absurd hle (Nat.not_le.mpr hlt)⟩
    have := hflag i
    simp only [Sender.create,List.length_nil,Nat.zero_add] at this
    simp [this] at hi

theorem Idle.serve (h : Idle q st) (hclient : ∀ contents, Client q contents 0 st seen taken)
    (hs : st.serve disk = some st') : Inv q st' := by
  obtain ⟨p,path,r,htake,hrun,rfl⟩ := serve_turn hs
  have hlines := fun contents => (hclient contents).lines.take htake
  cases run_waiting h.state (hlines []).2 hrun with
  | quiet hsame =>
    subst hsame
    refine ⟨seen,taken ++ [p],.inl ⟨⟨h.state,h.sender,?_⟩,fun contents => ?_⟩⟩
    · simp [h.state,h.readings]
    · exact (hclient contents).kept ⟨rfl,rfl,rfl,Nat.le_add_right _ _⟩ (hlines contents).1
  | greeted reply hsame htype =>
    subst hsame
    refine ⟨seen,taken ++ [p],.inl ⟨⟨h.state,h.sender,?_⟩,fun contents => ?_⟩⟩
    · simp [h.state,h.readings]
    · refine (hclient contents).kept ⟨rfl,rfl,rfl,Nat.le_add_right _ _⟩ ?_
      rw [handshake_not_refusal htype]
      exact (hlines contents).1.replied (.inl htype)
  | refused reply hout hrefusal hstate hsender _ _ _ =>
    refine ⟨seen,taken ++ [p],.inl ⟨⟨hstate,hsender.trans h.sender,?_⟩,fun contents => ?_⟩⟩
    · simp [hstate,h.readings]
    · have hone : r.2.countP isRefusal = 1 := by
        rw [hout]
        simp [isRefusal,hrefusal.1]
      refine (hclient contents).kept ⟨rfl,rfl,rfl,Nat.le_add_right _ _⟩ ?_
      simp only [hone]
      rw [hout]
      exact ((hlines contents).1.mono id le_rfl (Nat.le_succ _)).replied
        (.inr ⟨hrefusal,Nat.succ_pos _⟩)
  | started contents s₀ s hmsg hread hold hstart hnew hstate hout =>
    have hbegun := h.start hclient htake hread hold hstart hnew hstate
    refine ⟨seen,taken ++ [p],.inr ⟨contents,s,?_⟩⟩
    simp only [h.state,hstate,and_self,if_true,hout,List.countP_nil,Nat.add_zero]
    exact hbegun

theorem told_ack {isAcked : Bool} (h : Told q isAcked n p) (htype : p.msg.type = .ack) :
    ∃ k : Slot, p.msg.sequenceNumber = k.val ∧ (k = q.sequenceNumber → p.acked = true) := by
  rcases h.kind with hshake | ⟨hrequest,_⟩ | ⟨_,hk⟩
  · rw [hshake] at htype
    cases htype
  · have hrequested : p.msg.type = requestType q := congrArg Msg.type hrequest
    rcases requestType_cases q with he | he
    · rw [hrequested,he] at htype
      cases htype
    · rw [hrequested,he] at htype
      cases htype
  · exact hk

theorem told_request {isAcked : Bool} (h : Told q isAcked n p) (hacked : p.acked = true) :
    p.msg.type ≠ requestType q := by
  rcases h.kind with hshake | ⟨_,hnot⟩ | ⟨hack,_⟩
  · rcases requestType_cases q with he | he
    · simp [hshake,he]
    · simp [hshake,he]
  · rw [hacked] at hnot
    cases hnot
  · rcases requestType_cases q with he | he
    · simp [hack,he]
    · simp [hack,he]

-- the packet at the origin of the first window has been acknowledged, so the request has been too
theorem Serves.origin_acked (h : Serves q contents st s taken)
    (hclient : Client q contents n st seen taken) (hflag : s.flag 0 = true) :
    ∃ a ∈ taken, a.acked = true ∧ st.isAcked = true := by
  obtain ⟨a,ha,htype,hnumber⟩ := h.flagged 0 hflag
  have htold : Told q st.isAcked n a := hclient.lines.told a (by simp [Path.line,ha])
  obtain ⟨k,hk,hfirst⟩ := told_ack htold htype
  rw [hnumber,residue_zero] at hk
  have hacked := hfirst (Fin.ext (by exact_mod_cast hk.symm))
  exact ⟨a,ha,hacked,(htold.acked hacked).1⟩

-- what an acknowledgement does to the sender of a transmission that goes on
theorem Serves.acknowledge (h : Serves q contents st s taken)
    (hclient : Client q contents s.threads.length st seen taken) (hopen : s.isComplete = false)
    (htake : st.path.take .two = some (p,path)) {k : Slot}
    (hk : k = q.sequenceNumber → p.acked = true) {s' : Sender}
    (hack : s.processAck k.val = some s') :
    (contents ≠ [] ∧ s'.Transmits (transmission q contents) 0 ∨ contents = [] ∧ Empty q s') ∧
      (∀ i, s'.flag i = true → s.flag i = true ∨ residue q.sequenceNumber i = k) ∧
      (s'.isComplete = true → st.isAcked = true ∧
        ∀ r ∈ (path.line .one []).contents, r.msg.type ≠ requestType q) := by
  have hstep : s.step (.ack k) = some s' := by
    rw [Sender.step,Sender.isPayloadSent,hopen,if_neg Bool.false_ne_true]
    exact hack
  obtain ⟨hlines,htold⟩ := hclient.lines.take htake
  rcases h.engine with ⟨hne,htransmits⟩ | ⟨he,hempty⟩
  · obtain ⟨htransmits',_,hflag⟩ := htransmits.ack hne hstep
    refine ⟨.inl ⟨hne,htransmits'⟩,fun i hi => ?_,fun hc => ?_⟩
    · rw [hflag,Bool.or_eq_true,decide_eq_true_eq] at hi
      refine hi.imp_right fun hstate => ?_
      obtain ⟨j,_,_,hres,hj⟩ := (htransmits.running.window.state k i).mp hstate
      rw [Nat.zero_add] at hj
      exact hj ▸ hres
    · have hrun := htransmits.running
      rw [hrun.processAck_isComplete hne hack] at hc
      have heof : s.currentWindowOrigin = (transmission q contents).count := by
        by_contra hnot
        rw [if_neg hnot,hopen] at hc
        cases hc
      have hpos := ((transmission q contents).count_bounds hne).1
      have hpast := hrun.window.past 0 (by omega)
      obtain ⟨a,ha,hacked,hisAcked⟩ := h.origin_acked hclient hpast
      refine ⟨hisAcked,fun r hr => told_request (hlines.told r ?_) (hlines.no_request ha hacked r hr)⟩
      simp only [DelayLine.contents,Path.line,List.append_assoc,List.nil_append] at hr ⊢
      exact List.mem_append_right _ (List.mem_append_right _ hr)
  · have hadvances := Sender.advances_processAck hack
    refine ⟨.inr ⟨he,hempty.hollow.step hstep,hadvances.packets.trans hempty.packets,
      hadvances.seed.trans hempty.seed⟩,fun i hi => ?_,fun hc => ?_⟩
    · rw [(hempty.hollow.step hstep).flag] at hi
      simp [Sender.flag,Sender.create] at hi
    · have hnot : k ≠ q.sequenceNumber := fun hfirst => by
        have hpos := (htold.acked (hk hfirst)).2
        rw [hempty.hollow.length] at hpos
        exact absurd hpos (Nat.lt_irrefl 0)
      simp only [Sender.processAck,slotOf_slot,Option.bind_some,Sender.acknowledgeSlot,
        hempty.hollow.state,hempty.hollow.origin,if_true] at hack
      obtain rfl := Option.some.inj hack
      simp only [Sender.checkEofAck,hempty.packets,hempty.seed,decide_eq_true_eq] at hc
      have hwrap := wrap_add q.sequenceNumber 0
      rw [Nat.add_zero,Nat.mod_eq_of_lt q.sequenceNumber.isLt] at hwrap
      rw [hwrap] at hc
      exact absurd (Fin.ext (by exact_mod_cast hc)) hnot

theorem dispatchToSender_spec {server : ServerThread} {msg : Msg} {r : ServerThread.Outcome}
    {s : Sender} (hsender : server.sender = some s) (h : server.dispatchToSender msg = some r) :
    ∃ s', s.processAck msg.sequenceNumber = some s' ∧ r.1.sender = some s' ∧ r.2 = [] ∧
      (s'.isComplete = false ∧ r.1.currentState = server.currentState ∨
        s'.isComplete = true ∧ r.1.currentState = .waitingForRequest ∧
          r.1.sequenceNumber = s'.finalSequenceNumber) := by
  simp only [ServerThread.dispatchToSender,hsender,Option.bind_some] at h
  obtain ⟨s',hack,rfl⟩ := Option.map_eq_some_iff.mp h
  refine ⟨s',hack,?_⟩
  cases hc : s'.isPayloadSent with
  | true => exact ⟨rfl,rfl,.inr ⟨hc,rfl,rfl⟩⟩
  | false => exact ⟨rfl,rfl,.inl ⟨hc,rfl⟩⟩

theorem Serves.grow (h : Serves q contents st s taken)
    (hclient : Client q contents n st seen taken) (hn : n ≤ s.threads.length) :
    Client q contents s.threads.length st seen taken := by
  refine ⟨hclient.lines.mono id hn le_rfl,hclient.view.kept ⟨rfl,rfl,rfl,le_rfl⟩ hn,?_,?_,?_⟩
  · intro hpos
    rcases h.engine with ⟨hne,_⟩ | ⟨_,hempty⟩
    · exact ⟨hne,h.fits⟩
    · rw [hempty.hollow.length] at hpos
      exact absurd hpos (Nat.lt_irrefl 0)
  · rcases h.engine with ⟨_,ht⟩ | ⟨_,hempty⟩
    · have hlength := ht.running.window.length
      have hspan := ((transmission q contents).span_le _ ht.running.le).2.2
      omega
    · rw [hempty.hollow.length]
      exact Nat.zero_le _
  · intro hlt
    rcases h.engine with ⟨hne,ht⟩ | ⟨_,hempty⟩
    · have hlength := ht.running.window.length
      have hle := ht.running.le
      have hpos := ((transmission q contents).count_bounds hne).1
      have heof : ¬s.currentWindowOrigin < (transmission q contents).count := by
        intro hdata
        rw [Transmission.span,if_pos hdata] at hlength
        omega
      obtain ⟨_,_,_,hacked⟩ := h.origin_acked hclient (ht.running.window.past 0 (by omega))
      exact hacked
    · rw [hempty.hollow.length] at hlt
      exact absurd hlt (Nat.not_lt_zero _)

theorem Serves.serve_sending (h : Serves q contents st s taken)
    (hclient : Client q contents s.threads.length st seen taken) (hopen : s.isComplete = false)
    (hstate : st.server.currentState = .sending) (hs : st.serve disk = some st') :
    ∃ s' taken', Serves q contents st' s' taken' ∧
      Client q contents s'.threads.length st' seen taken' := by
  obtain ⟨p,path,r,htake,hrun,rfl⟩ := serve_turn hs
  obtain ⟨hlines,htold⟩ := hclient.lines.take htake
  have hmore : ∀ i, s.flag i = true → ∃ a ∈ taken ++ [p], a.msg.type = .ack ∧
      a.msg.sequenceNumber = (residue q.sequenceNumber i).val := fun i hi => by
    obtain ⟨a,ha,hack⟩ := h.flagged i hi
    exact ⟨a,List.mem_append_left _ ha,hack⟩
  simp only [ServerThread.run,hstate] at hrun
  simp only [hstate,reduceCtorEq,false_and,if_false]
  split_ifs at hrun with htype
  · obtain ⟨k,hnumber,hfirst⟩ := told_ack htold htype
    obtain ⟨s',hack,hsender,hout,hnext⟩ := dispatchToSender_spec h.sender hrun
    rw [hnumber] at hack
    obtain ⟨hengine,hflag,hended⟩ := h.acknowledge hclient hopen htake hfirst hack
    have hgrows := (Sender.advances_processAck hack).threads.length
    have hserves : Serves q contents { st with
        server := r.1
        path := path } s' (taken ++ [p]) := by
      refine ⟨hsender,h.readings,h.fits,hengine,fun i hi => ?_,?_⟩
      · rcases hflag i hi with hold | hk
        · exact hmore i hold
        · exact ⟨p,by simp,htype,hk ▸ hnumber⟩
      · rcases hnext with ⟨hc,hst⟩ | ⟨hc,hst,hfinal⟩
        · exact .inl ⟨hc,hst.trans hstate⟩
        · obtain ⟨hacked,hnone⟩ := hended hc
          exact .inr ⟨hc,hst,hacked,hfinal,hnone⟩
    rw [hout]
    exact ⟨s',_,hserves,hserves.grow (hclient.kept ⟨rfl,rfl,rfl,le_rfl⟩ hlines) hgrows⟩
  · obtain rfl := Option.some.inj hrun
    exact ⟨s,_,⟨h.sender,h.readings,h.fits,h.engine,hmore,.inl ⟨hopen,hstate⟩⟩,
      hclient.kept ⟨rfl,rfl,rfl,Nat.le_add_right _ _⟩ hlines⟩

theorem Serves.serve_ended (h : Serves q contents st s taken)
    (hclient : Client q contents s.threads.length st seen taken) (hended : Ended q st s)
    (hs : st.serve disk = some st') :
    ∃ taken', Serves q contents st' s taken' ∧
      Client q contents s.threads.length st' seen taken' := by
  obtain ⟨p,path,r,htake,hrun,rfl⟩ := serve_turn hs
  obtain ⟨hlines,htold⟩ := hclient.lines.take htake
  have hcontents : (st.path.line .one []).contents = p :: (path.line .one []).contents :=
    Path.contents_take htake
  have hmore : ∀ i, s.flag i = true → ∃ a ∈ taken ++ [p], a.msg.type = .ack ∧
      a.msg.sequenceNumber = (residue q.sequenceNumber i).val := fun i hi => by
    obtain ⟨a,ha,hack⟩ := h.flagged i hi
    exact ⟨a,List.mem_append_left _ ha,hack⟩
  have hrest : ∀ a ∈ (path.line .one []).contents, a.msg.type ≠ requestType q :=
    fun a ha => hended.unrequested a (hcontents ▸ List.mem_cons_of_mem p ha)
  have hnot : p.msg.type ≠ requestType q := hended.unrequested p (by rw [hcontents]; simp)
  have hkind : p.msg.type = .handshake ∨ p.msg.type = .ack := by
    rcases told_type htold with hshake | hrequest | hack
    · exact .inl hshake
    · exact absurd (congrArg Msg.type hrequest) hnot
    · exact .inr hack
  refine ⟨taken ++ [p],?_⟩
  rcases run_unrequested hended.state hkind hrun with rfl | ⟨m,rfl,hreply⟩
  · refine ⟨⟨h.sender,?_,h.fits,h.engine,hmore,.inr ⟨hended.complete,hended.state,hended.isAcked,
      hended.number,hrest⟩⟩,hclient.kept ⟨rfl,rfl,rfl,Nat.le_add_right _ _⟩ hlines⟩
    simp [hended.state,h.readings]
  · refine ⟨⟨h.sender,?_,h.fits,h.engine,hmore,.inr ⟨hended.complete,hended.state,hended.isAcked,
      hended.number,?_⟩⟩,hclient.kept ⟨rfl,rfl,rfl,Nat.le_add_right _ _⟩ ?_⟩
    · simp [hended.state,h.readings]
    · simp only [reply]
      rw [Path.line_send_other _ _ _ (by decide)]
      exact hrest
    · rw [handshake_not_refusal hreply]
      exact hlines.replied (.inl hreply)

-- the steps of the client leave the server alone, and only acknowledge once `*isAcked` is set
structure Aside (q : DownloadRequest) (st st' : Download) : Prop where
  server : st'.server = st.server
  readings : st'.readings = st.readings
  refusals : st'.refusals = st.refusals
  isAcked : st.isAcked = true → st'.isAcked = true
  line : ∀ r ∈ (st'.path.line .one []).contents, r ∈ (st.path.line .one []).contents ∨
    r.msg.type = .ack ∨ st.isAcked = false

theorem Aside.idle (hk : Aside q st st') (h : Idle q st) : Idle q st' :=
  ⟨hk.server ▸ h.state,hk.server ▸ h.sender,hk.readings ▸ h.readings⟩

theorem Aside.serves (hk : Aside q st st') (h : Serves q contents st s taken) :
    Serves q contents st' s taken := by
  refine ⟨hk.server ▸ h.sender,hk.readings ▸ h.readings,h.fits,h.engine,h.flagged,?_⟩
  refine h.state.imp (fun ⟨hopen,hstate⟩ => ⟨hopen,hk.server ▸ hstate⟩) fun hended => ?_
  refine ⟨hended.complete,hk.server ▸ hended.state,hk.isAcked hended.isAcked,
    hk.server ▸ hended.number,fun r hr => ?_⟩
  rcases hk.line r hr with hold | hack | hopen
  · exact hended.unrequested r hold
  · rw [hack]
    rcases requestType_cases q with he | he
    · simp [he]
    · simp [he]
  · rw [hended.isAcked] at hopen
    cases hopen

theorem aside_of_path (hserver : st'.server = st.server) (hreadings : st'.readings = st.readings)
    (hrefusals : st'.refusals = st.refusals) (hacked : st.isAcked = true → st'.isAcked = true)
    (hpath : st'.path = st.path) : Aside q st st' :=
  ⟨hserver,hreadings,hrefusals,hacked,fun _ hr => .inl (hpath ▸ hr)⟩

theorem mem_acknowledge (st : Download) {acks : List Msg} (hacks : ∀ ack ∈ acks, ack.type = .ack) :
    ∀ r ∈ ((st.acknowledge acks).line .one []).contents,
      r ∈ (st.path.line .one []).contents ∨ r.msg.type = .ack := by
  unfold acknowledge
  generalize st.path = path
  induction acks generalizing path with
  | nil => exact fun r hr => .inl hr
  | cons ack acks ih =>
    intro r hr
    rcases ih (fun a ha => hacks a (.tail _ ha)) _ r hr with hr | hr
    · rw [Path.line_send_self,DelayLine.contents_push,List.mem_append,List.mem_singleton] at hr
      refine hr.imp_right fun he => ?_
      rw [he]
      exact hacks ack (.head _)
    · exact .inr hr

theorem aside_handleMsg {serverMsg : Msg} (hs : Download.handleMsg q st serverMsg = some st') :
    Aside q st st' := by
  obtain ⟨handled,hh,rfl⟩ := Option.map_eq_some_iff.mp hs
  have hline := mem_acknowledge st (Receiver.handleMsg_sent hh)
  have hor : ∀ r ∈ ((st.acknowledge handled.sent).line .one []).contents,
      r ∈ (st.path.line .one []).contents ∨ r.msg.type = .ack ∨ st.isAcked = false :=
    fun r hr => (hline r hr).imp_right .inl
  cases handled.thrown with
  | some what => exact ⟨rfl,rfl,rfl,id,hor⟩
  | none =>
    dsimp only
    split_ifs
    · exact ⟨rfl,rfl,rfl,id,hor⟩
    · exact ⟨rfl,rfl,rfl,id,hor⟩

theorem Aside.after {path : Path DownloadParcel} {a : Bool} (hacked : st.isAcked = true → a = true)
    (htake : st.path.take .one = some (p,path))
    (h : Aside q { st with
      path := path
      isAcked := a } st') : Aside q st st' := by
  have hother : path.line .one [] = st.path.line .one [] := Path.line_take_other htake
  refine ⟨h.server,h.readings,h.refusals,fun ha => h.isAcked (hacked ha),fun r hr => ?_⟩
  rcases h.line r hr with hold | hack | hopen
  · exact .inl (hother ▸ hold)
  · exact .inr (.inl hack)
  · refine .inr (.inr ?_)
    cases ha : st.isAcked with
    | false => rfl
    | true => exact absurd (hacked ha) (by simp [show a = false from hopen])

theorem aside_receive (hs : st.receive q = some st') : Aside q st st' := by
  obtain ⟨⟨p,path⟩,htake,hs⟩ := Option.bind_eq_some_iff.mp hs
  have hignored : Aside q st { st with path := path } := by
    refine Aside.after id htake (aside_of_path rfl rfl rfl id rfl)
  cases hphase : st.phase with
  | receiving =>
    simp only [hphase] at hs
    split_ifs at hs
    · exact Option.some.inj hs ▸ hphase ▸ hignored
    · split at hs
      · have hnext : Download.handleMsg q { st with
            path := path
            isAcked := st.isAcked || decide (p.msg.sequenceNumber = q.sequenceNumber.val) } p.msg =
              some st' := hphase ▸ hs
        exact (aside_handleMsg hnext).after (fun ha => by simp [ha]) htake
      · have hnext : Download.handleMsg q { st with path := path } p.msg = some st' := hphase ▸ hs
        exact (aside_handleMsg hnext).after id htake
      · exact Option.some.inj hs ▸ hphase ▸ hignored
  | flushing m =>
    simp only [hphase] at hs
    split_ifs at hs
    · obtain rfl := Option.some.inj hs
      have hacks : ∀ ack ∈ [finalAck q p.msg], ack.type = .ack :=
        fun ack ha => List.mem_singleton.mp ha ▸ rfl
      refine Aside.after (a := st.isAcked) id htake ⟨rfl,rfl,rfl,id,fun r hr => ?_⟩
      exact (mem_acknowledge { st with path := path } hacks r hr).imp_right .inl
    · exact Option.some.inj hs ▸ hphase ▸ hignored
  | catching | noSuchFile | uncaught | finished =>
    simp only [hphase] at hs
    cases hs

theorem aside_request (hs : Download.request q st = some st') : Aside q st st' := by
  obtain ⟨hopen,rfl⟩ := request_spec hs
  exact ⟨rfl,rfl,rfl,id,fun r _ => .inr (.inr hopen)⟩

theorem aside_handle (hs : st.handle q = some st') : Aside q st st' := by
  unfold Download.handle at hs
  split at hs
  · split_ifs at hs
    · exact Option.some.inj hs ▸ aside_of_path rfl rfl rfl (fun _ => rfl) rfl
    · exact Option.some.inj hs ▸ aside_of_path rfl rfl rfl id rfl
  · exact Option.some.inj hs ▸ aside_of_path rfl rfl rfl id rfl
  · cases hs

theorem aside_timeOut (hs : st.timeOut = some st') : Aside q st st' := by
  unfold Download.timeOut at hs
  split at hs
  · obtain ⟨_,_,rfl⟩ := Option.map_eq_some_iff.mp hs
    exact aside_of_path rfl rfl rfl id rfl
  · cases hs

theorem aside_evolves {path : Path DownloadParcel} {admits : Peer → DownloadParcel → Prop}
    (hl : st.path.Evolves id admits path) : Aside q st { st with path := path } := by
  refine ⟨rfl,rfl,rfl,id,fun r hr => .inl ?_⟩
  have hall : (path.line .one []).All fun a => a ∈ (st.path.line .one []).contents :=
    hl.all (fun _ ha => ha) fun a ha => ha
  exact hall r hr

theorem Inv.aside (h : Inv q st) (hk : Aside q st st')
    (hstep : ∀ seen taken, ∃ seen', ∀ contents n, Client q contents n st seen taken →
      Client q contents n st' seen' taken) : Inv q st' := by
  obtain ⟨seen,taken,hinv⟩ := h
  obtain ⟨seen',hnext⟩ := hstep seen taken
  refine ⟨seen',taken,hinv.imp (fun ⟨hidle,hclient⟩ => ?_) fun ⟨contents,s,hserves,hclient⟩ => ?_⟩
  · exact ⟨hk.idle hidle,fun contents => hnext contents 0 (hclient contents)⟩
  · exact ⟨contents,s,hk.serves hserves,hnext contents _ hclient⟩

theorem Inv.step (h : Inv q st) {e : Event} (hs : (system q).step st e = some st') :
    Inv q st' := by
  cases e with
  | request => exact h.aside (aside_request hs) fun _ _ => ⟨_,fun _ _ hc => hc.request hs⟩
  | attempt k fails =>
    obtain ⟨seen,taken,⟨hidle,_⟩ | ⟨contents,s,hserves,hclient⟩⟩ := h
    · rw [show (system q).step st (.attempt k fails) = none from hidle.attempt] at hs
      cases hs
    · obtain ⟨s',hserves',hclient'⟩ := hserves.attempt hclient hs
      exact ⟨seen,taken,.inr ⟨contents,s',hserves',hclient'⟩⟩
  | route source isDelayed isDamage =>
    obtain ⟨path,hp,rfl⟩ := Option.map_eq_some_iff.mp hs
    have hl : Path.Evolves id (fun _ _ => True) st.path path :=
      Path.evolves_route hp fun _ _ _ _ _ => trivial
    exact h.aside (aside_evolves hl) fun _ _ => ⟨_,fun _ _ hc => hc.evolves hl⟩
  | idle =>
    obtain rfl := Option.some.inj hs
    have hl := Path.evolves_idle id (fun _ (_ : DownloadParcel) => True) st.path
    exact h.aside (aside_evolves hl) fun _ _ => ⟨_,fun _ _ hc => hc.evolves hl⟩
  | serve disk =>
    obtain ⟨seen,taken,⟨hidle,hclient⟩ | ⟨contents,s,hserves,hclient⟩⟩ := h
    · exact hidle.serve hclient hs
    · rcases hserves.state with ⟨hopen,hstate⟩ | hended
      · obtain ⟨s',taken',hserves',hclient'⟩ := hserves.serve_sending hclient hopen hstate hs
        exact ⟨seen,taken',.inr ⟨contents,s',hserves',hclient'⟩⟩
      · obtain ⟨taken',hserves',hclient'⟩ := hserves.serve_ended hclient hended hs
        exact ⟨seen,taken',.inr ⟨contents,s,hserves',hclient'⟩⟩
  | receive =>
    obtain ⟨⟨p,path⟩,htake,_⟩ := Option.bind_eq_some_iff.mp hs
    exact h.aside (aside_receive hs) fun seen _ => ⟨seen ++ [p],fun _ _ hc => hc.receive htake hs⟩
  | handle => exact h.aside (aside_handle hs) fun _ _ => ⟨_,fun _ _ hc => hc.handle hs⟩
  | timeOut => exact h.aside (aside_timeOut hs) fun _ _ => ⟨_,fun _ _ hc => hc.timeOut hs⟩

end Download
end FtpOverUdp
