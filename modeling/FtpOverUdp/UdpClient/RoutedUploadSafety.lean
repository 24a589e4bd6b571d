import FtpOverUdp.Common.SenderThreads
import FtpOverUdp.Transfer.Stream
import FtpOverUdp.UdpClient.RoutedUpload
import FtpOverUdp.UdpServer.RunSpec

namespace FtpOverUdp

open Library

namespace Origin

-- the request has the number of packet 0
def number : Origin → Option ℕ
  | .request => some 0
  | .packet k => some k
  | .handshake | .past | .other => none

def data : Origin → Option ℕ
  | .packet k => some k
  | _ => none

def current : Origin → Bool
  | .request | .packet _ => true
  | .handshake | .past | .other => false

def Near (a b : Option ℕ) : Prop := ∀ i ∈ a, ∀ j ∈ b, i < j + windowSize

structure Follows (a b : Origin) : Prop where
  near : Near a.number b.number
  unrequested : a.data.isSome → b ≠ .request
  greeted : a.current = true → b ≠ .handshake

theorem current_cases {o : Origin} (h : o.current = true) : o = .request ∨ ∃ k, o = .packet k := by
  cases o with
  | request => exact .inl rfl
  | packet k => exact .inr ⟨k,rfl⟩
  | handshake | past | other => cases h

theorem follows_of_not_current {a : Origin} (h : a.current = false) (b : Origin) :
    Follows a b := by
  cases a with
  | handshake | past | other =>
    exact ⟨fun _ hi => (by cases hi),fun hdata => (by cases hdata),fun hcurrent => (by cases hcurrent)⟩
  | request | packet => cases h

theorem follows_other (a : Origin) : Follows a .other :=
  ⟨fun _ _ _ hj => (by cases hj),fun _ hc => (by cases hc),fun _ hc => (by cases hc)⟩

theorem number_of_data {o : Origin} {k : ℕ} (h : o.data = some k) : o.number = some k := by
  cases o with
  | handshake | past | other | request => cases h
  | packet m => exact h

end Origin

namespace RoutedUpload

open Origin (Near)
open Transfer (Fills packets Took)

abbrev Late (p : UploadParcel) : Prop := p.delayed = true

abbrev data (p : UploadParcel) : Option ℕ := p.origin.data

abbrev number (p : UploadParcel) : Option ℕ := p.origin.number

def started (st : RoutedUpload) : ℕ := st.sender.threads.length - st.base

def Told (q : UploadRequest) (n : ℕ) (p : UploadParcel) : Prop :=
  match p.origin with
  | .handshake => p.msg.type = .handshake
  | .past => False
  | .other => p.msg.clientId ≠ q.transmission.clientId
  | .request => p.msg = Upload.requestMsg q
  | .packet k => k < n ∧ p.msg = q.transmission.message k

def Answered (q : UploadRequest) (saves : List (List UInt8 × Payload)) (p : UploadParcel) :
    Prop :=
  match p.origin with
  | .handshake => p.msg.type = .handshake
  | .past => p.msg.serverId ≠ q.serverIdentifier
  | .other => p.msg.clientId ≠ q.transmission.clientId
  | .request => p.msg.sequenceNumber = q.transmission.seed.val
  | .packet k => p.msg.sequenceNumber = (residue q.transmission.seed k).val ∧
      (q.transmission.count ≤ k → saves ≠ [])

structure Waits (q : UploadRequest) (st : RoutedUpload) : Prop where
  state : st.server.currentState = .waitingForRequest
  receiver : st.server.receiver.isSome
  phase : st.phase = .requesting
  saves : st.saves = []
  silent : ∀ p ∈ (st.path.line .two []).contents, p.origin.current = false

structure Receives (q : UploadRequest) (st : RoutedUpload) (taken : List UploadParcel) :
    Prop where
  state : st.server.currentState = .receiving
  receiver : ∃ rc, st.server.receiver = some rc ∧ rc.isComplete = false ∧
    Fills q.transmission rc (packets data UploadParcel.msg taken)
  requested : ∃ r ∈ taken, r.origin = .request
  filename : st.server.filename =
    (Upload.requestMsg q).buffer.copyOut (Upload.requestMsg q).length.toNat
  saves : st.saves = []

structure Saved (q : UploadRequest) (st : RoutedUpload) : Prop where
  state : st.server.currentState = .waitingForRequest
  receiver : st.server.receiver.isSome
  saves : st.saves = [((Upload.requestMsg q).buffer.copyOut (Upload.requestMsg q).length.toNat,
    ⟨q.transmission.contents.length,q.transmission.contents⟩)]
  number : st.server.sequenceNumber = wrap (q.transmission.seed.val + q.transmission.count + 1)
  begun : st.phase ≠ .requesting
  unrequested : ∀ p ∈ (st.path.line .one []).contents, p.origin ≠ .request

inductive Stage (q : UploadRequest) (st : RoutedUpload) (taken : List UploadParcel) : Prop
  | waits (h : Waits q st)
  | receives (h : Receives q st taken)
  | saved (h : Saved q st)

-- an empty payload leaves the sender with nothing to send
structure Sends (q : UploadRequest) (base : ℕ) (s : Sender) : Prop where
  old : ∀ j < base, s.flag j = true
  engine : q.transmission.contents ≠ [] ∧ q.transmission.contents.length < 2 ^ 31 ∧
      s.Transmits q.transmission base ∨
    q.transmission.contents = [] ∧ ∃ s₀ : Sender, s.Hollow s₀ ∧ s₀.threads.length = base

def Feeds (q : UploadRequest) (st : RoutedUpload) : Prop :=
  match st.phase with
  | .requesting => st.sender.serverId = q.transmission.serverId ∧
      st.sender.clientId = q.transmission.clientId ∧
      (∀ t ∈ st.sender.threads, t.isAcked = true) ∧ st.base = st.sender.threads.length
  | .sending => Sends q st.base st.sender ∧ st.sender.isComplete = false
  | .uploaded m => Sends q st.base st.sender ∧ st.sender.isComplete = true ∧
      m = st.sender.finalSequenceNumber

structure Inv (q : UploadRequest) (st : RoutedUpload) (taken acked : List UploadParcel) :
    Prop where
  feeds : Feeds q st
  sent : (st.path.line .one taken).Ordered UploadParcel.origin Origin.Follows Late
  told : (st.path.line .one taken).All (Told q st.started)
  answers : (st.path.line .two acked).All (Answered q st.saves)
  source : (st.path.line .two acked).All fun p =>
    p.origin.current = true → ∃ r ∈ taken, r.origin = p.origin
  stage : Stage q st taken

variable {q : UploadRequest} {st st' : RoutedUpload} {base n : ℕ} {s s' : Sender}
  {taken acked : List UploadParcel} {p : UploadParcel} {path : Path UploadParcel} {disk : Disk}

theorem Sends.ack (h : Sends q base s) (hopen : s.isComplete = false) {number : ℤ}
    (hack : s.processAck number = some s') : Sends q base s' ∧ ∃ k : Slot, number = k.val ∧
      ∀ j, s'.flag j = true → s.flag j = true ∨ s.windowState k = some j := by
  obtain ⟨k,hk,_⟩ := Option.bind_eq_some_iff.mp hack
  have hnumber : number = k.val := by
    unfold slotOf at hk
    split_ifs at hk with hrange
    obtain rfl := Option.some.inj hk
    exact (Int.toNat_of_nonneg hrange.1).symm
  subst hnumber
  have hstep : s.step (.ack k) = some s' := by
    rw [Sender.step,Sender.isPayloadSent,hopen,if_neg Bool.false_ne_true]
    exact hack
  rcases h.engine with ⟨hne,hfits,ht⟩ | ⟨he,s₀,hhollow,hlength⟩
  · obtain ⟨ht',_,hflag⟩ := ht.ack hne hstep
    refine ⟨⟨fun j hj => ?_,.inl ⟨hne,hfits,ht'⟩⟩,k,rfl,fun j hj => ?_⟩
    · rw [hflag,h.old j hj]
      rfl
    · rw [hflag,Bool.or_eq_true,decide_eq_true_eq] at hj
      exact hj
  · have hhollow' := hhollow.step hstep
    refine ⟨⟨fun j hj => ?_,.inr ⟨he,s₀,hhollow',hlength⟩⟩,k,rfl,fun j hj => ?_⟩
    · rw [hhollow'.flag,← hhollow.flag]
      exact h.old j hj
    · rw [hhollow'.flag,← hhollow.flag] at hj
      exact .inl hj

theorem Sends.attempt (h : Sends q base s) {k : ℕ} {fails : Bool} {a : Sender.Attempt}
    (hs : s.attempt k fails = some (s',a)) : Sends q base s' := by
  have hstep : s.step (.attempt k fails) = some s' := by
    rw [Sender.step,hs]
    rfl
  rcases h.engine with ⟨hne,hfits,ht⟩ | ⟨he,s₀,hhollow,hlength⟩
  · obtain ⟨ht',_,hflag⟩ := ht.attempt hstep
    exact ⟨fun j hj => (hflag j).trans (h.old j hj),.inl ⟨hne,hfits,ht'⟩⟩
  · have hhollow' := hhollow.step hstep
    refine ⟨fun j hj => ?_,.inr ⟨he,s₀,hhollow',hlength⟩⟩
    rw [hhollow'.flag,← hhollow.flag]
    exact h.old j hj

-- a thread that still sends is at the origin of the window or above it
theorem Sends.sent (h : Sends q base s) {k : ℕ} {fails : Bool} {msg : Msg}
    (hs : s.attempt k fails = some (s',.sent msg)) : s' = s ∧ base ≤ k ∧
      k - base < s.threads.length - base ∧ msg = q.transmission.message (k - base) ∧
      s.threads.length - base ≤ k - base + windowSize := by
  obtain ⟨t,ht,⟨hsent,hacked,hsame⟩ | ⟨hnot,_⟩⟩ := Sender.attempt_cases hs
  · obtain rfl := Sender.Attempt.sent.inj hsent
    have hin := (List.getElem?_eq_some_iff.mp ht).1
    have hopen : s.flag k = false := by simp [Sender.flag,ht,hacked]
    have hold : base ≤ k := by
      by_contra hlt
      rw [h.old k (Nat.lt_of_not_le hlt)] at hopen
      cases hopen
    rcases h.engine with ⟨hne,_,htransmits⟩ | ⟨_,s₀,hhollow,hlength⟩
    · have hwindow := htransmits.running.window
      have hlen := hwindow.length
      have hspan := hwindow.span
      have hmsg := hwindow.message (k - base) (by omega)
      rw [Nat.add_sub_cancel' hold,ht,Option.map_some] at hmsg
      have hge : s.currentWindowOrigin ≤ k - base := by
        by_contra hlt
        have hpast := hwindow.past (k - base) (Nat.lt_of_not_le hlt)
        rw [Nat.add_sub_cancel' hold,hopen] at hpast
        cases hpast
      refine ⟨hsame,hold,by omega,Option.some.inj hmsg,?_⟩
      rw [hlen,Nat.add_sub_cancel_left]
      exact hspan.trans (Nat.add_le_add_right hge _)
    · have hlen := hhollow.length
      omega
  · exact absurd rfl (hnot msg)

theorem Sends.started (h : Sends q base s) (hn : 0 < s.threads.length - base) :
    q.transmission.contents ≠ [] ∧ q.transmission.contents.length < 2 ^ 31 ∧
      s.Transmits q.transmission base := by
  rcases h.engine with ht | ⟨_,s₀,hhollow,hlength⟩
  · exact ht
  · have hlen := hhollow.length
    omega

theorem Sends.start (hids : s.serverId = q.transmission.serverId ∧
      s.clientId = q.transmission.clientId) (hacked : ∀ t ∈ s.threads, t.isAcked = true)
    (hs : s.startTransmission q.transmission.contents q.transmission.seed = some s') :
    Sends q s.threads.length s' ∧ s'.isComplete = false := by
  have hreach : (Sender.transmission s q.transmission.contents q.transmission.seed).Reachable s' :=
    ⟨s',hs,.refl⟩
  have htracked := Sender.tracked_of_reachable hreach
  have hold : ∀ j < s.threads.length, s'.flag j = true := by
    intro j hj
    rw [htracked.old j hj,Sender.flag,List.getElem?_eq_getElem hj]
    exact hacked _ (List.getElem_mem hj)
  rcases eq_or_ne q.transmission.contents [] with he | hne
  · rw [he] at hs hreach
    have hhollow := Sender.hollow_of_reachable hreach
    exact ⟨⟨hold,.inr ⟨he,s,hhollow,rfl⟩⟩,(Sender.start_empty hs).2⟩
  · have ht := Sender.Transmits.start hne hs
    have hx : (⟨s.serverId,s.clientId,q.transmission.contents,q.transmission.seed⟩ :
        Transmission) = q.transmission := by rw [hids.1,hids.2]
    rw [hx] at ht
    obtain ⟨s₁,h₁,h₂⟩ := Sender.startTransmission_spec hs
    exact ⟨⟨hold,.inl ⟨hne,(Sender.start_carries hs).1,ht⟩⟩,(Sender.Running.start hne h₁ h₂).2.2.2⟩

theorem Earlier.told (h : Earlier q p) (hnot : p.origin ≠ .past) : Told q n p := by
  cases horigin : p.origin with
  | handshake | other =>
    simp only [Earlier,Told,horigin] at h ⊢
    exact h
  | past => exact absurd horigin hnot
  | request | packet => simp only [Earlier,horigin] at h

theorem Earlier.answered {saves : List (List UInt8 × Payload)} (h : Earlier q p) :
    Answered q saves p := by
  cases horigin : p.origin with
  | handshake | past | other =>
    simp only [Earlier,Answered,horigin] at h ⊢
    exact h
  | request | packet => simp only [Earlier,horigin] at h

theorem Earlier.not_current (h : Earlier q p) : p.origin.current = false := by
  cases horigin : p.origin with
  | handshake | past | other => rfl
  | request | packet => simp only [Earlier,horigin] at h

theorem inv_init (h : Init q st) : Inv q st [] [] := by
  have hidle : ∀ peer, ∀ p ∈ (st.path.line peer []).contents, p.origin.current = false :=
    fun peer p hp => (h.path peer p hp).not_current
  refine ⟨?_,?_,fun p hp => (h.path .one p hp).told (h.greeted p hp),
    fun p hp => (h.path .two p hp).answered,fun p hp hcurrent => ?_,
    .waits ⟨h.state,h.receiver,h.phase,h.saves,hidle .two⟩⟩
  · rw [Feeds,h.phase]
    exact ⟨h.serverId,h.clientId,h.acked,h.base⟩
  · exact DelayLine.ordered_of_all
      (fun y hy x _ => Origin.follows_of_not_current (hidle .one y hy) x.origin)
      fun y hy => h.held .one y hy
  · rw [hidle .two p hp] at hcurrent
    cases hcurrent

theorem Inv.unstarted (h : Inv q st taken acked) (hphase : st.phase = .requesting) :
    st.started = 0 := by
  have hfeeds := h.feeds
  rw [Feeds,hphase] at hfeeds
  rw [started,hfeeds.2.2.2,Nat.sub_self]

theorem Inv.sends (h : Inv q st taken acked) (hphase : st.phase ≠ .requesting) :
    Sends q st.base st.sender := by
  have hfeeds := h.feeds
  cases hst : st.phase with
  | requesting => exact absurd hst hphase
  | sending | uploaded =>
    rw [Feeds,hst] at hfeeds
    exact hfeeds.1

theorem Told.mono {n' : ℕ} (hn : n ≤ n') (h : Told q n p) : Told q n' p := by
  cases horigin : p.origin with
  | handshake | other | request =>
    simp only [Told,horigin] at h ⊢
    exact h
  | past => simp only [Told,horigin] at h
  | packet k =>
    simp only [Told,horigin] at h ⊢
    exact ⟨h.1.trans_le hn,h.2⟩

theorem Told.no_data (h : Told q 0 p) : data p = none := by
  cases horigin : p.origin with
  | handshake | past | other | request => simp only [data,horigin,Origin.data]
  | packet k =>
    simp only [Told,horigin] at h
    exact absurd h.1 (Nat.not_lt_zero k)

theorem Told.follows_packet (h : Told q n p) {k : ℕ} (hn : n ≤ k + windowSize) :
    p.origin.Follows (.packet k) := by
  refine ⟨fun i hi j hj => ?_,fun _ hc => (by cases hc),fun _ hc => (by cases hc)⟩
  obtain rfl := Option.some.inj hj
  cases horigin : p.origin with
  | handshake | past | other =>
    rw [horigin] at hi
    cases hi
  | request =>
    rw [horigin] at hi
    obtain rfl := Option.some.inj hi
    simp only [windowSize]
    omega
  | packet m =>
    simp only [Told,horigin] at h
    rw [horigin] at hi
    obtain rfl := Option.some.inj hi
    omega

-- no packet of this upload is on its way before the request is answered
theorem Told.follows_request (h : Told q 0 p) : p.origin.Follows .request := by
  have hdata := h.no_data
  obtain ⟨hnear,_,_⟩ := h.follows_packet (k := 0) (Nat.zero_le _)
  refine ⟨hnear,fun hd => ?_,fun _ hc => (by cases hc)⟩
  rw [show p.origin.data = none from hdata] at hd
  cases hd

theorem message_clientId (x : Transmission) (k : ℕ) : (x.message k).clientId = x.clientId := by
  unfold Transmission.message
  split_ifs <;> rfl

theorem message_serverId (x : Transmission) (k : ℕ) : (x.message k).serverId = x.serverId := by
  unfold Transmission.message
  split_ifs <;> rfl

-- the messages of this upload are the client's own
theorem Told.not_current (h : Told q n p) (hother : p.msg.clientId ≠ q.transmission.clientId) :
    p.origin.current = false := by
  by_contra hcurrent
  rcases Origin.current_cases (Bool.not_eq_false _ ▸ hcurrent) with horigin | ⟨k,horigin⟩
  · simp only [Told,horigin] at h
    exact hother (h ▸ rfl)
  · simp only [Told,horigin] at h
    exact hother (h.2 ▸ message_clientId q.transmission k)

-- the steps that leave the server's thread alone
theorem Stage.same (h : Stage q st taken) (hserver : st'.server = st.server)
    (hsaves : st'.saves = st.saves)
    (hphase : st.phase ≠ .requesting → st'.phase ≠ .requesting)
    (hwaits : Waits q st → st'.phase = .requesting ∧
      ∀ p ∈ (st'.path.line .two []).contents, p.origin.current = false)
    (hone : st.phase ≠ .requesting → ∀ p ∈ (st'.path.line .one []).contents,
      p ∈ (st.path.line .one []).contents ∨ p.origin ≠ .request) : Stage q st' taken := by
  cases h with
  | waits h =>
    obtain ⟨hrequesting,hsilent⟩ := hwaits h
    exact .waits ⟨hserver ▸ h.state,hserver ▸ h.receiver,hrequesting,hsaves ▸ h.saves,hsilent⟩
  | receives h =>
    exact .receives ⟨hserver ▸ h.state,hserver ▸ h.receiver,h.requested,hserver ▸ h.filename,
      hsaves ▸ h.saves⟩
  | saved h =>
    refine .saved ⟨hserver ▸ h.state,hserver ▸ h.receiver,hsaves ▸ h.saves,hserver ▸ h.number,
      hphase h.begun,fun p hp => ?_⟩
    rcases hone h.begun p hp with hold | hnew
    · exact h.unrequested p hold
    · exact hnew

-- a message of the client, or one that goes the same way
theorem Inv.pushed (h : Inv q st taken acked) {new : UploadParcel}
    (hpath : st'.path = st.path.send .one new)
    (hfollows : ∀ y ∈ (st.path.line .one taken).contents, y.origin.Follows new.origin)
    (htold : Told q st'.started new) (hgrows : st.started ≤ st'.started)
    (hsaves : st'.saves = st.saves) (hfeeds : Feeds q st') (hstage : Stage q st' taken) :
    Inv q st' taken acked := by
  have hone : st'.path.line .one taken = (st.path.line .one taken).push new :=
    hpath ▸ Path.line_send_self ..
  have htwo : st'.path.line .two acked = st.path.line .two acked :=
    hpath ▸ Path.line_send_other _ _ _ (by decide)
  refine ⟨hfeeds,hone ▸ h.sent.push hfollows,?_,?_,htwo ▸ h.source,hstage⟩
  · rw [hone]
    exact DelayLine.All.push (fun y hy => (h.told y hy).mono hgrows) htold
  · rw [htwo,hsaves]
    exact h.answers

theorem Inv.request (h : Inv q st taken acked) (hs : RoutedUpload.request q st = some st') :
    Inv q st' taken acked := by
  unfold RoutedUpload.request at hs
  split_ifs at hs with hphase
  obtain rfl := Option.some.inj hs
  have hzero := h.unstarted hphase
  refine h.pushed rfl (fun y hy => ?_) rfl le_rfl rfl h.feeds ?_
  · exact Told.follows_request (hzero ▸ h.told y hy)
  · refine h.stage.same rfl rfl (fun hne => absurd hphase hne) (fun hw => ?_) fun hne =>
      absurd hphase hne
    refine ⟨hphase,?_⟩
    rw [Path.line_send_other _ _ _ (by decide)]
    exact hw.silent

theorem attempt_spec {k : ℕ} {fails : Bool} (hs : st.attempt k fails = some st') :
    ∃ s a, st.sender.attempt k fails = some (s,a) ∧
      ((∃ msg, a = .sent msg ∧ st' = { st with
          sender := s
          path := st.path.send .one ⟨msg,.packet (k - st.base),false⟩ }) ∨
        (∀ msg, a ≠ .sent msg) ∧ st' = { st with sender := s }) := by
  obtain ⟨⟨s,a⟩,ha,rfl⟩ := Option.map_eq_some_iff.mp hs
  refine ⟨s,a,ha,?_⟩
  cases a with
  | sent msg => exact .inl ⟨msg,rfl,rfl⟩
  | failed => exact .inr ⟨by simp,rfl⟩
  | left => exact .inr ⟨by simp,rfl⟩

theorem attempt_length {k : ℕ} {fails : Bool} {a : Sender.Attempt}
    (h : s.attempt k fails = some (s',a)) : s'.threads.length = s.threads.length ∧
      s'.serverId = s.serverId ∧ s'.clientId = s.clientId ∧ s'.isComplete = s.isComplete ∧
      s'.finalSequenceNumber = s.finalSequenceNumber := by
  obtain ⟨t,ht,⟨_,_,rfl⟩ | ⟨_,rfl⟩⟩ := Sender.attempt_cases h
  · exact ⟨rfl,rfl,rfl,rfl,rfl⟩
  · exact ⟨by simp [Sender.stopThread],rfl,rfl,rfl,rfl⟩

theorem attempt_acked {k : ℕ} {fails : Bool} {a : Sender.Attempt}
    (hacked : ∀ t ∈ s.threads, t.isAcked = true) (h : s.attempt k fails = some (s',a)) :
    (∀ msg, a ≠ .sent msg) ∧ ∀ t ∈ s'.threads, t.isAcked = true := by
  obtain ⟨t,ht,⟨_,hopen,_⟩ | ⟨hnot,rfl⟩⟩ := Sender.attempt_cases h
  · rw [hacked t (List.mem_of_getElem? ht)] at hopen
    cases hopen
  · refine ⟨hnot,fun t' ht' => ?_⟩
    obtain ⟨j,hj,rfl⟩ := List.getElem_of_mem ht'
    have hin : j < s.threads.length := by simpa [Sender.stopThread] using hj
    have hold := hacked s.threads[j] (List.getElem_mem hin)
    simp only [Sender.stopThread,List.getElem_modify]
    split_ifs
    · exact hold
    · exact hold

theorem Feeds.attempt (h : Feeds q st) {k : ℕ} {fails : Bool} {a : Sender.Attempt}
    (hs : st.sender.attempt k fails = some (s,a)) : Feeds q { st with sender := s } := by
  obtain ⟨hlength,hserver,hclient,hcomplete,hfinal⟩ := attempt_length hs
  cases hphase : st.phase with
  | requesting =>
    simp only [Feeds,hphase] at h ⊢
    obtain ⟨h1,h2,hacked,hbase⟩ := h
    exact ⟨hserver.trans h1,hclient.trans h2,(attempt_acked hacked hs).2,hbase.trans hlength.symm⟩
  | sending =>
    simp only [Feeds,hphase] at h ⊢
    exact ⟨h.1.attempt hs,hcomplete.trans h.2⟩
  | uploaded m =>
    simp only [Feeds,hphase] at h ⊢
    exact ⟨h.1.attempt hs,hcomplete.trans h.2.1,h.2.2.trans hfinal.symm⟩

theorem Inv.attempt (h : Inv q st taken acked) {k : ℕ} {fails : Bool}
    (hs : st.attempt k fails = some st') : Inv q st' taken acked := by
  obtain ⟨s,a,ha,hcase⟩ := attempt_spec hs
  have hfeeds := h.feeds.attempt ha
  obtain ⟨hlength,_⟩ := attempt_length ha
  have hstarted : s.threads.length - st.base = st.started := by rw [hlength,started]
  rcases hcase with ⟨msg,rfl,rfl⟩ | ⟨_,rfl⟩
  · have hphase : st.phase ≠ .requesting := fun hphase => by
      have hrequesting := h.feeds
      rw [Feeds,hphase] at hrequesting
      exact (attempt_acked hrequesting.2.2.1 ha).1 msg rfl
    obtain ⟨_,_,hin,hmsg,hspan⟩ := (h.sends hphase).sent ha
    refine h.pushed rfl (fun y hy => ?_) ?_ hstarted.ge rfl hfeeds ?_
    · exact (h.told y hy).follows_packet hspan
    · exact ⟨hin.trans_le hstarted.ge,hmsg⟩
    · refine h.stage.same rfl rfl id (fun hw => absurd hw.phase hphase) fun _ r hr => ?_
      rw [Path.line_send_self,DelayLine.contents_push,List.mem_append,List.mem_singleton] at hr
      refine hr.imp_right fun he => ?_
      rw [he]
      exact fun hc => by cases hc
  · refine ⟨hfeeds,h.sent,fun y hy => (h.told y hy).mono hstarted.ge,h.answers,h.source,?_⟩
    exact h.stage.same rfl rfl id (fun hw => ⟨hw.phase,hw.silent⟩) fun _ r hr => .inl hr

theorem Inv.evolves {admits : Peer → UploadParcel → Prop} (h : Inv q st taken acked)
    (hl : st.path.Evolves UploadParcel.mark admits path) :
    Inv q { st with path := path } taken acked := by
  refine ⟨h.feeds,?_,hl.all (fun _ hp => hp) h.told,hl.all (fun _ hp => hp) h.answers,
    hl.all (fun _ hp => hp) h.source,?_⟩
  · rcases hl .one taken with he | hstep
    · exact he ▸ h.sent
    · refine h.sent.step ?_ ?_ hstep
      all_goals exact fun _ => rfl
  · cases h.stage with
    | waits hw =>
      have hsilent : (path.line .two []).All fun p => p.origin.current = false :=
        hl.all (fun _ hp => hp) hw.silent
      exact .waits ⟨hw.state,hw.receiver,hw.phase,hw.saves,hsilent⟩
    | receives hr => exact .receives ⟨hr.state,hr.receiver,hr.requested,hr.filename,hr.saves⟩
    | saved hd =>
      have hunrequested : (path.line .one []).All fun p => p.origin ≠ .request :=
        hl.all (fun _ hp => hp) hd.unrequested
      exact .saved ⟨hd.state,hd.receiver,hd.saves,hd.number,hd.begun,hunrequested⟩

theorem message_kind (x : Transmission) (k : ℕ) : k < x.count ∧ (x.message k).type = .resp ∨
    x.count ≤ k ∧ (x.message k).type = .respErr ∧ (x.message k).isText eofText = true := by
  rcases Nat.lt_or_ge k x.count with hlt | hge
  · exact .inl ⟨hlt,(x.message_data hlt).1⟩
  · obtain ⟨htype,_,htext,_⟩ := x.message_eof hge
    exact .inr ⟨hge,htype,by simp [Msg.isText,htype,htext]⟩

theorem message_type (x : Transmission) (k : ℕ) :
    (x.message k).type = .resp ∨ (x.message k).type = .respErr := by
  rcases message_kind x k with ⟨_,htype⟩ | ⟨_,htype,_⟩
  · exact .inl htype
  · exact .inr htype

-- a message of the client is taken by the server's thread
theorem Inv.take (h : Inv q st taken acked) (htake : st.path.take .two = some (p,path)) :
    path.line .one (taken ++ [p]) = st.path.line .one taken ∧
      path.line .two acked = st.path.line .two acked ∧ Told q st.started p ∧
      OvertakenOnce UploadParcel.origin Origin.Follows Late (taken ++ [p]) := by
  have hself : path.line .one (taken ++ [p]) = st.path.line .one taken := Path.line_take_self htake
  have hpassed : (st.path.line .one taken).passed = taken ++ [p] ++ path.down .two := by
    rw [← hself]
    rfl
  refine ⟨hself,Path.line_take_other htake,h.told p (by simp [hpassed]),?_⟩
  have hall := h.sent.passed
  rw [hpassed] at hall
  exact hall.of_append

theorem packets_once {l : List UploadParcel}
    (h : OvertakenOnce UploadParcel.origin Origin.Follows Late l) :
    OvertakenOnce Packet.thread Transfer.near Transfer.Late
      (packets data UploadParcel.msg l) := by
  refine h.filterMap _ (fun a b a' b' ha hb hfollows => ?_) fun a a' ha _ => ?_
  · obtain ⟨i,hi,rfl⟩ := Option.map_eq_some_iff.mp ha
    obtain ⟨j,hj,rfl⟩ := Option.map_eq_some_iff.mp hb
    exact hfollows.near i (Origin.number_of_data hi) j (Origin.number_of_data hj)
  · obtain ⟨i,_,rfl⟩ := Option.map_eq_some_iff.mp ha
    rfl

-- once data has come before the EOF no copy of the request can follow it
theorem Inv.unrequested (h : Inv q st taken acked) (htake : st.path.take .two = some (p,path))
    {a : UploadParcel} (ha : a ∈ taken) (hdata : (data a).isSome) :
    ∀ r ∈ (path.line .one []).contents, r.origin ≠ .request := by
  obtain ⟨hself,_,_,_⟩ := h.take htake
  have hsent := hself ▸ h.sent
  have hpassed : (path.line .one (taken ++ [p])).passed = taken ++ p :: path.down .two :=
    List.append_assoc ..
  intro r hr hrequest
  have hnot : ¬Origin.Follows a.origin r.origin := fun hf => hf.unrequested hdata hrequest
  exact hsent.blocked hpassed ha hnot hr

-- one turn of the server's thread, or of another one
inductive Turn (q : UploadRequest) (st : RoutedUpload) (disk : Disk) (p : UploadParcel)
    (path : Path UploadParcel) : RoutedUpload → Prop
  | other (hother : p.msg.clientId ≠ q.transmission.clientId) :
      Turn q st disk p path { st with path := path }
  | own (r : ServerThread.Outcome) (hown : p.msg.clientId = q.transmission.clientId)
      (hrun : st.server.run p.msg disk = some r) : Turn q st disk p path { st with
        server := r.1
        path := replies p path r.2
        saves := st.saves ++ saved r.2 }

theorem serve_spec (hs : RoutedUpload.serve q st disk = some st') : ∃ p path,
    st.path.take .two = some (p,path) ∧ Turn q st disk p path st' := by
  obtain ⟨⟨p,path⟩,htake,hs⟩ := Option.bind_eq_some_iff.mp hs
  refine ⟨p,path,htake,?_⟩
  split_ifs at hs with hown
  · exact Option.some.inj hs ▸ .other hown
  · obtain ⟨r,hrun,rfl⟩ := Option.map_eq_some_iff.mp hs
    exact .own r (not_ne_iff.mp hown) hrun

theorem replies_line_one (effects : List Effect) (path : Path UploadParcel)
    (l : List UploadParcel) : (replies p path effects).line .one l = path.line .one l := by
  induction effects generalizing path with
  | nil => rfl
  | cons effect effects ih =>
    cases effect with
    | send msg =>
      rw [replies,ih]
      exact Path.line_send_other _ _ _ (by decide)
    | rename | save => exact ih path

theorem replies_all {P : UploadParcel → Prop} {effects : List Effect} {l : List UploadParcel}
    (hall : (path.line .two l).All P)
    (hreplies : ∀ reply, .send reply ∈ effects → P ⟨reply,p.origin,p.delayed⟩) :
    ((replies p path effects).line .two l).All P := by
  induction effects generalizing path with
  | nil => exact hall
  | cons effect effects ih =>
    have hrest := fun reply hr => hreplies reply (List.mem_cons_of_mem effect hr)
    cases effect with
    | send msg =>
      refine ih ?_ hrest
      rw [Path.line_send_self]
      exact hall.push (hreplies msg List.mem_cons_self)
    | rename | save => exact ih hall hrest

-- what one turn sends back, at most one message
inductive Replied (q : UploadRequest) (p : UploadParcel) (path path' : Path UploadParcel)
    (saves : List (List UInt8 × Payload)) : Prop
  | silent (hpath : path' = path)
  | answered (reply : Msg) (hpath : path' = path.send .two ⟨reply,p.origin,p.delayed⟩)
      (hanswer : Answered q saves ⟨reply,p.origin,p.delayed⟩)

theorem Replied.line_one {path' : Path UploadParcel} {saves : List (List UInt8 × Payload)}
    (h : Replied q p path path' saves) (l : List UploadParcel) :
    path'.line .one l = path.line .one l := by
  cases h with
  | silent hpath => rw [hpath]
  | answered reply hpath _ => rw [hpath,Path.line_send_other _ _ _ (by decide)]

theorem Answered.more {saves saves' : List (List UInt8 × Payload)}
    (hsaves : saves ≠ [] → saves' ≠ []) (h : Answered q saves p) : Answered q saves' p := by
  cases horigin : p.origin with
  | handshake | past | other | request =>
    simp only [Answered,horigin] at h ⊢
    exact h
  | packet k =>
    simp only [Answered,horigin] at h ⊢
    exact ⟨h.1,fun hk => hsaves (h.2 hk)⟩

-- a turn of the server's thread leaves the client alone
structure Served (q : UploadRequest) (st st' : RoutedUpload) (taken acked : List UploadParcel)
    (p : UploadParcel) : Prop where
  inv : Inv q st' (taken ++ [p]) acked
  replied : ∃ path, st.path.take .two = some (p,path) ∧ Replied q p path st'.path st'.saves
  sender : st'.sender = st.sender
  base : st'.base = st.base
  phase : st'.phase = st.phase
  saves : st.saves ≠ [] → st'.saves ≠ []

theorem Inv.served (h : Inv q st taken acked) (htake : st.path.take .two = some (p,path))
    {server : ServerThread} {path' : Path UploadParcel} {more : List (List UInt8 × Payload)}
    (hreplied : Replied q p path path' (st.saves ++ more))
    (hstage : Stage q { st with
      server := server
      path := path'
      saves := st.saves ++ more } (taken ++ [p])) : Served q st { st with
      server := server
      path := path'
      saves := st.saves ++ more } taken acked p := by
  obtain ⟨hself,hother,_,_⟩ := h.take htake
  have hone : path'.line .one (taken ++ [p]) = st.path.line .one taken :=
    (hreplied.line_one _).trans hself
  have hanswers : (path.line .two acked).All (Answered q (st.saves ++ more)) := by
    rw [hother]
    exact fun r hr => (h.answers r hr).more fun hne hnil => hne (List.append_eq_nil_iff.mp hnil).1
  have hsource : (path.line .two acked).All fun r =>
      r.origin.current = true → ∃ r' ∈ taken ++ [p], r'.origin = r.origin := by
    rw [hother]
    intro r hr hcurrent
    obtain ⟨r',hr',he⟩ := h.source r hr hcurrent
    exact ⟨r',List.mem_append_left _ hr',he⟩
  refine ⟨⟨h.feeds,hone ▸ h.sent,hone ▸ h.told,?_,?_,hstage⟩,⟨path,htake,hreplied⟩,rfl,rfl,rfl,
    fun hne hnil => hne (List.append_eq_nil_iff.mp hnil).1⟩
  · cases hreplied with
    | silent hpath => exact hpath ▸ hanswers
    | answered reply hpath hanswer =>
      rw [hpath,Path.line_send_self]
      exact hanswers.push hanswer
  · cases hreplied with
    | silent hpath => exact hpath ▸ hsource
    | answered reply hpath hanswer =>
      rw [hpath,Path.line_send_self]
      exact hsource.push fun _ => ⟨p,by simp,rfl⟩

-- a server's thread that waits for requests answers whatever is not one
theorem waiting_answers (hstate : st.server.currentState = .waitingForRequest)
    (htold : Told q n p) (hown : p.msg.clientId = q.transmission.clientId)
    (hnot : p.origin ≠ .request) {saves : List (List UInt8 × Payload)}
    (heof : ∀ k, p.origin = .packet k → q.transmission.count ≤ k → saves ≠ [])
    {r : ServerThread.Outcome} (hrun : st.server.run p.msg disk = some r) :
    ∃ reply, r = (st.server,[.send reply]) ∧ Answered q saves ⟨reply,p.origin,p.delayed⟩ := by
  cases horigin : p.origin with
  | handshake =>
    simp only [Told,horigin] at htold
    simp only [ServerThread.run,hstate,ServerThread.handleRequest,htold] at hrun
    obtain ⟨effect,he,rfl⟩ := Option.map_eq_some_iff.mp hrun
    obtain ⟨reply,rfl,htype,_⟩ := ServerThread.startHandshake_spec he
    exact ⟨reply,rfl,htype⟩
  | past => simp only [Told,horigin] at htold
  | other =>
    simp only [Told,horigin] at htold
    exact absurd hown htold
  | request => exact absurd horigin hnot
  | packet k =>
    simp only [Told,horigin] at htold
    have htype : p.msg.type = .resp ∨ p.msg.type = .respErr :=
      htold.2 ▸ message_type q.transmission k
    rw [ServerThread.run_waiting_resp disk hstate htype] at hrun
    refine ⟨_,(Option.some.inj hrun).symm,?_,heof k horigin⟩
    change p.msg.sequenceNumber = _
    rw [htold.2]
    exact Transfer.message_sequenceNumber q.transmission k

theorem Waits.serve_request (hw : Waits q st) (h : Inv q st taken acked)
    (htake : st.path.take .two = some (p,path)) (horigin : p.origin = .request)
    {r : ServerThread.Outcome} (hrun : st.server.run p.msg disk = some r) : Served q st { st with
      server := r.1
      path := replies p path r.2
      saves := st.saves ++ saved r.2 } taken acked p := by
  obtain ⟨hself,_,htold,_⟩ := h.take htake
  simp only [Told,horigin] at htold
  obtain ⟨rc,hrc⟩ := Option.isSome_iff_exists.mp hw.receiver
  have htype : p.msg.type = .post := htold ▸ rfl
  simp only [ServerThread.run,hw.state,ServerThread.handleRequest,htype,ServerThread.getFile,hrc,
    Option.map_some] at hrun
  obtain rfl := Option.some.inj hrun
  refine h.served htake (.answered _ rfl ?_)
    (.receives ⟨rfl,⟨_,rfl,rfl,?_⟩,⟨p,by simp,horigin⟩,htold ▸ rfl,?_⟩)
  · simp only [Answered,horigin]
    exact htold ▸ rfl
  · have hnone : packets data UploadParcel.msg (taken ++ [p]) = [] := by
      refine List.filterMap_eq_nil_iff.mpr fun a ha => ?_
      have htold : Told q 0 a := by
        rw [← h.unstarted hw.phase]
        exact h.told a (hself ▸ List.mem_append_left _ (List.mem_append_left _ ha))
      rw [htold.no_data]
      rfl
    rw [hnone]
    exact htold ▸ Transfer.fills_start rc q.transmission
  · simp [hw.saves,saved,ServerThread.sendAck,ServerThread.sendMsg]

theorem Waits.serve (hw : Waits q st) (h : Inv q st taken acked)
    (htake : st.path.take .two = some (p,path)) (hown : p.msg.clientId = q.transmission.clientId)
    {r : ServerThread.Outcome} (hrun : st.server.run p.msg disk = some r) : Served q st { st with
      server := r.1
      path := replies p path r.2
      saves := st.saves ++ saved r.2 } taken acked p := by
  obtain ⟨_,_,htold,_⟩ := h.take htake
  have hother : path.line .two [] = st.path.line .two [] := Path.line_take_other htake
  have hnodata := Told.no_data (h.unstarted hw.phase ▸ htold)
  by_cases horigin : p.origin = .request
  · exact hw.serve_request h htake horigin hrun
  · have hnopacket : ∀ k, p.origin ≠ .packet k := fun k hk => by
      simp only [data,hk,Origin.data] at hnodata
      cases hnodata
    have heof : ∀ k, p.origin = .packet k → q.transmission.count ≤ k → st.saves ++ [] ≠ [] :=
      fun k hk => absurd hk (hnopacket k)
    obtain ⟨reply,rfl,hanswer⟩ := waiting_answers hw.state htold hown horigin heof hrun
    refine h.served htake (.answered reply rfl hanswer)
      (.waits ⟨hw.state,hw.receiver,hw.phase,by simp [hw.saves,saved],?_⟩)
    change ∀ a ∈ ((path.send .two ⟨reply,p.origin,p.delayed⟩).line .two []).contents, _
    rw [Path.line_send_self,DelayLine.contents_push,hother]
    intro a ha
    rcases List.mem_append.mp ha with ha | ha
    · exact hw.silent a ha
    · rw [List.mem_singleton.mp ha]
      by_contra hcurrent
      rcases Origin.current_cases (Bool.not_eq_false _ ▸ hcurrent) with hkind | ⟨k,hkind⟩
      · exact horigin hkind
      · exact hnopacket k hkind

theorem Saved.serve (hd : Saved q st) (h : Inv q st taken acked)
    (htake : st.path.take .two = some (p,path)) (hown : p.msg.clientId = q.transmission.clientId)
    {r : ServerThread.Outcome} (hrun : st.server.run p.msg disk = some r) : Served q st { st with
      server := r.1
      path := replies p path r.2
      saves := st.saves ++ saved r.2 } taken acked p := by
  obtain ⟨_,_,htold,_⟩ := h.take htake
  have hcontents : (st.path.line .one []).contents = p :: (path.line .one []).contents :=
    Path.contents_take htake
  have hsaves : st.saves ++ [] ≠ [] := by
    rw [hd.saves]
    exact List.cons_ne_nil _ _
  have hnot : p.origin ≠ .request := hd.unrequested p (by rw [hcontents]; simp)
  obtain ⟨reply,rfl,hanswer⟩ := waiting_answers hd.state htold hown hnot (fun _ _ _ => hsaves) hrun
  have hreplied : Replied q p path (replies p path [.send reply])
      (st.saves ++ saved [.send reply]) := .answered reply rfl hanswer
  refine h.served htake hreplied (.saved ⟨hd.state,hd.receiver,?_,hd.number,hd.begun,?_⟩)
  · exact (List.append_nil _).trans hd.saves
  · have hrest : ∀ a ∈ (path.line .one []).contents, a.origin ≠ .request :=
      fun a ha => hd.unrequested a (hcontents ▸ List.mem_cons_of_mem p ha)
    exact (hreplied.line_one []) ▸ hrest

theorem Receives.more (hr : Receives q st taken) (p : UploadParcel) :
    ∃ r ∈ taken ++ [p], r.origin = .request := by
  obtain ⟨r,hmem,horigin⟩ := hr.requested
  exact ⟨r,List.mem_append_left _ hmem,horigin⟩

theorem Receives.quiet (hr : Receives q st taken) (h : Inv q st taken acked)
    (htake : st.path.take .two = some (p,path)) (hnone : data p = none) {effects : List Effect}
    (hsaved : saved effects = [])
    (hreplied : Replied q p path (replies p path effects) (st.saves ++ saved effects)) :
    Served q st { st with
      path := replies p path effects
      saves := st.saves ++ saved effects } taken acked p := by
  obtain ⟨rc,hrc,hopen,hfills⟩ := hr.receiver
  refine h.served htake hreplied
    (.receives ⟨hr.state,⟨rc,hrc,hopen,?_⟩,hr.more p,hr.filename,?_⟩)
  · rw [Transfer.packets_none hnone]
    exact hfills
  · rw [hsaved]
    exact (List.append_nil _).trans hr.saves

theorem Receives.serve_packet (hr : Receives q st taken) (h : Inv q st taken acked)
    (htake : st.path.take .two = some (p,path)) {k : ℕ} (horigin : p.origin = .packet k)
    {r : ServerThread.Outcome} (hrun : st.server.run p.msg disk = some r) : Served q st { st with
      server := r.1
      path := replies p path r.2
      saves := st.saves ++ saved r.2 } taken acked p := by
  obtain ⟨_,_,htold,honce⟩ := h.take htake
  obtain ⟨rc,hrc,hopen,hfills⟩ := hr.receiver
  simp only [Told,horigin] at htold
  obtain ⟨hk,hmsg⟩ := htold
  have hphase : st.phase ≠ .requesting := fun hphase => by
    rw [h.unstarted hphase] at hk
    exact absurd hk (Nat.not_lt_zero k)
  obtain ⟨hne,hfits,_⟩ := (h.sends hphase).started (Nat.zero_lt_of_lt hk)
  have hdata : data p = some k := by rw [data,horigin,Origin.data]
  have honce := packets_once honce
  rw [Transfer.packets_some hdata] at honce
  have hkind : p.msg.type = .resp ∨ p.msg.isText eofText := by
    rcases message_kind q.transmission k with ⟨_,htype⟩ | ⟨_,_,htext⟩
    · exact .inl (hmsg ▸ htype)
    · exact .inr (hmsg ▸ htext)
  rw [ServerThread.run_receiving disk hr.state hkind,ServerThread.dispatchToReceiver,hrc,
    Option.bind_some] at hrun
  obtain ⟨handled,hh,hrun⟩ := Option.bind_eq_some_iff.mp hrun
  have hhandle := hfills.handle (p := ⟨p.msg,k,true⟩) hne hfits hopen hmsg honce hh
  obtain ⟨hfills',htook,hthrown⟩ := hhandle
  rw [← Transfer.packets_some hdata] at hfills'
  have hcarried := hfills.carried (p := ⟨p.msg,k,true⟩) hne hfits hopen hmsg hh
  have hgoing : handled.receiver.isComplete = false → r = ({ st.server with
      receiver := some handled.receiver },handled.sent.map Effect.send) := by
    intro hopen'
    have hnone : handled.receiver.getPayload = none := by
      rw [Receiver.getPayload,hopen',if_neg Bool.false_ne_true]
    simp only [hthrown,hnone] at hrun
    exact (Option.some.inj hrun).symm
  have hreceives : ∀ path', handled.receiver.isComplete = false → Stage q { st with
      server := { st.server with receiver := some handled.receiver }
      path := path'
      saves := st.saves ++ [] } (taken ++ [p]) := fun path' hopen' =>
    .receives ⟨hr.state,⟨_,rfl,hopen',hfills'⟩,hr.more p,hr.filename,
      (List.append_nil _).trans hr.saves⟩
  cases htook with
  | data hlt hopen' hsent =>
    obtain rfl := hgoing hopen'
    rw [hsent]
    refine h.served htake (.answered _ rfl ?_) (hreceives _ hopen')
    simp only [Answered,horigin]
    exact ⟨rfl,fun hge => absurd hlt (Nat.not_lt.mpr hge)⟩
  | early hge hopen' hsent =>
    obtain rfl := hgoing hopen'
    rw [hsent]
    exact h.served htake (.silent rfl) (hreceives _ hopen')
  | eof hge hdone hsent =>
    obtain ⟨hpayload,hfinal⟩ := (hfills'.complete hdone).getPayload hne hdone
    obtain ⟨⟨payload,drained⟩,hgot,rfl⟩ := Option.map_eq_some_iff.mp hpayload
    simp only [hthrown,hgot] at hrun
    obtain rfl := Option.some.inj hrun
    obtain ⟨a,ha,hadata⟩ : ∃ a ∈ taken, (data a).isSome := by
      obtain ⟨b,hb⟩ := List.exists_mem_of_ne_nil _ (hcarried hdone)
      obtain ⟨a,ha,hab⟩ := List.mem_filterMap.mp hb
      obtain ⟨m,hm,_⟩ := Option.map_eq_some_iff.mp hab
      exact ⟨a,ha,by rw [hm]; rfl⟩
    rw [hsent]
    refine h.served htake (.answered _ rfl ?_) (.saved ⟨rfl,rfl,?_,hfinal,hphase,?_⟩)
    · simp only [Answered,horigin]
      refine ⟨rfl,fun _ hnil => ?_⟩
      have := (List.append_eq_nil_iff.mp hnil).2
      cases this
    · change st.saves ++ [(st.server.filename,_)] = _
      rw [hr.saves,hr.filename]
      rfl
    · change ∀ a ∈ ((path.send .two _).line .one []).contents, _
      rw [Path.line_send_other _ _ _ (by decide)]
      exact h.unrequested htake ha hadata

theorem Receives.serve (hr : Receives q st taken) (h : Inv q st taken acked)
    (htake : st.path.take .two = some (p,path)) (hown : p.msg.clientId = q.transmission.clientId)
    {r : ServerThread.Outcome} (hrun : st.server.run p.msg disk = some r) : Served q st { st with
      server := r.1
      path := replies p path r.2
      saves := st.saves ++ saved r.2 } taken acked p := by
  obtain ⟨_,_,htold,_⟩ := h.take htake
  cases horigin : p.origin with
  | handshake =>
    simp only [Told,horigin] at htold
    have hignored : st.server.run p.msg disk = some (st.server,[]) := by
      simp [ServerThread.run,hr.state,ServerThread.handleUpload,htold,Msg.isText]
    obtain rfl := Option.some.inj (hignored.symm.trans hrun)
    exact hr.quiet h htake (by simp [data,horigin,Origin.data]) rfl (.silent rfl)
  | past => simp only [Told,horigin] at htold
  | other =>
    simp only [Told,horigin] at htold
    exact absurd hown htold
  | request =>
    simp only [Told,horigin] at htold
    have htype : p.msg.type = .post := htold ▸ rfl
    have hacked : st.server.run p.msg disk = some (st.server,[st.server.sendAck p.msg]) := by
      simp [ServerThread.run,hr.state,ServerThread.handleUpload,htype,Msg.isText]
    obtain rfl := Option.some.inj (hacked.symm.trans hrun)
    refine hr.quiet h htake (by simp [data,horigin,Origin.data]) rfl (.answered _ rfl ?_)
    simp only [Answered,horigin]
    exact htold ▸ rfl
  | packet k => exact hr.serve_packet h htake horigin hrun

-- a message of another client leaves the thread as it was
theorem Inv.skip (h : Inv q st taken acked) (htake : st.path.take .two = some (p,path))
    (hother : p.msg.clientId ≠ q.transmission.clientId) :
    Served q st { st with path := path } taken acked p := by
  obtain ⟨_,hline,htold,_⟩ := h.take htake
  have hidle := htold.not_current hother
  have hnone : data p = none := by
    cases horigin : p.origin with
    | handshake | past | other | request => simp only [data,horigin,Origin.data]
    | packet k =>
      rw [horigin] at hidle
      cases hidle
  have hcontents : (st.path.line .one []).contents = p :: (path.line .one []).contents :=
    Path.contents_take htake
  have hup : path.line .two [] = st.path.line .two [] := Path.line_take_other htake
  have hstage : Stage q { st with path := path } (taken ++ [p]) := by
    cases h.stage with
    | waits hw => exact .waits ⟨hw.state,hw.receiver,hw.phase,hw.saves,hup ▸ hw.silent⟩
    | receives hr =>
      obtain ⟨rc,hrc,hopen,hfills⟩ := hr.receiver
      refine .receives ⟨hr.state,⟨rc,hrc,hopen,?_⟩,hr.more p,hr.filename,hr.saves⟩
      rw [Transfer.packets_none hnone]
      exact hfills
    | saved hd =>
      exact .saved ⟨hd.state,hd.receiver,hd.saves,hd.number,hd.begun,
        fun a ha => hd.unrequested a (hcontents ▸ List.mem_cons_of_mem p ha)⟩
  have hserved : Served q st { st with
      path := path
      saves := st.saves ++ [] } taken acked p := h.served htake (.silent rfl) (by
    rw [List.append_nil]
    exact hstage)
  rwa [List.append_nil] at hserved

theorem Inv.serve (h : Inv q st taken acked) (hs : RoutedUpload.serve q st disk = some st') :
    ∃ p, Served q st st' taken acked p := by
  obtain ⟨p,path,htake,hturn⟩ := serve_spec hs
  refine ⟨p,?_⟩
  cases hturn with
  | other hother => exact h.skip htake hother
  | own r hown hrun =>
    cases h.stage with
    | waits hw => exact hw.serve h htake hown hrun
    | receives hr => exact hr.serve h htake hown hrun
    | saved hd => exact hd.serve h htake hown hrun

-- a message of the server is taken by the client
theorem Inv.read (h : Inv q st taken acked) (htake : st.path.take .one = some (p,path)) :
    path.line .two (acked ++ [p]) = st.path.line .two acked ∧
      path.line .one taken = st.path.line .one taken ∧ Answered q st.saves p ∧
      (p.origin.current = true → ∃ r ∈ taken, r.origin = p.origin) := by
  have hself : path.line .two (acked ++ [p]) = st.path.line .two acked := Path.line_take_self htake
  have hpassed : p ∈ (st.path.line .two acked).passed := by
    rw [← hself]
    simp [Path.line]
  exact ⟨hself,Path.line_take_other htake,h.answers p (List.mem_append_left _ hpassed),
    h.source p (List.mem_append_left _ hpassed)⟩

-- what the client does with a message leaves the server and the lines as they were
theorem Inv.readers (h : Inv q st taken acked) (htake : st.path.take .one = some (p,path))
    {phase : UploadPhase} (hfeeds : Feeds q { st with
      phase := phase
      sender := s })
    (hgrows : st.sender.threads.length ≤ s.threads.length)
    (hphase : st.phase ≠ .requesting → phase ≠ .requesting)
    (hwaits : Waits q st → phase = .requesting) : Inv q { st with
      phase := phase
      sender := s
      path := path } taken (acked ++ [p]) := by
  obtain ⟨hself,hother,_,_⟩ := h.read htake
  have hfeeds : Feeds q { st with
      phase := phase
      sender := s
      path := path } := hfeeds
  have hcontents : (st.path.line .two []).contents = p :: (path.line .two []).contents :=
    Path.contents_take htake
  have hone : path.line .one [] = st.path.line .one [] := Path.line_take_other htake
  refine ⟨hfeeds,hother ▸ h.sent,?_,hself ▸ h.answers,hself ▸ h.source,?_⟩
  · rw [hother]
    exact fun r hr => (h.told r hr).mono (Nat.sub_le_sub_right hgrows _)
  · refine h.stage.same rfl rfl hphase (fun hw => ⟨hwaits hw,fun r hr => ?_⟩) fun _ r hr => ?_
    · exact hw.silent r (hcontents ▸ List.mem_cons_of_mem p hr)
    · exact .inl (hone ▸ hr)

theorem beginSending_spec (hs : st.beginSending q = some st') : ∃ s,
    st.sender.startTransmission q.transmission.contents q.transmission.seed = some s ∧
      st' = { st with
        phase := .sending
        sender := s } := by
  obtain ⟨s,hstart,rfl⟩ := Option.map_eq_some_iff.mp hs
  exact ⟨s,hstart,rfl⟩

-- an acknowledgement in the name of this server's thread answers a message of this upload
theorem Answered.current {saves : List (List UInt8 × Payload)} (h : Answered q saves p)
    (hown : p.msg.clientId = q.transmission.clientId) (htype : p.msg.type = .ack)
    (hserver : p.msg.serverId = q.serverIdentifier) : p.origin.current = true := by
  cases horigin : p.origin with
  | handshake =>
    simp only [Answered,horigin,htype] at h
    cases h
  | past =>
    simp only [Answered,horigin] at h
    exact absurd hserver h
  | other =>
    simp only [Answered,horigin] at h
    exact absurd hown h
  | request | packet => rfl

theorem Inv.begin (h : Inv q st taken acked) (htake : st.path.take .one = some (p,path))
    (hphase : st.phase = .requesting) (hcurrent : p.origin.current = true)
    (hs : { st with path := path }.beginSending q = some st') :
    Inv q st' taken (acked ++ [p]) := by
  obtain ⟨s,hstart,rfl⟩ := beginSending_spec hs
  have hfeeds := h.feeds
  rw [Feeds,hphase] at hfeeds
  obtain ⟨hserver,hclient,hacked,hbase⟩ := hfeeds
  have hsends := Sends.start ⟨hserver,hclient⟩ hacked hstart
  rw [← hbase] at hsends
  refine h.readers htake hsends (Sender.tracked_of_reachable ⟨s,hstart,.refl⟩).length
    (fun hne => absurd hphase hne) fun hw => ?_
  have hcontents : (st.path.line .two []).contents = p :: (path.line .two []).contents :=
    Path.contents_take htake
  have hsilent := hw.silent p (by rw [hcontents]; simp)
  rw [hcurrent] at hsilent
  cases hsilent

theorem takeAck_spec {msg : Msg} (hs : st.takeAck msg = some st') : ∃ s,
    st.sender.processAck msg.sequenceNumber = some s ∧ st' = { st with
      phase := if s.isPayloadSent then .uploaded s.finalSequenceNumber else st.phase
      sender := s } := by
  obtain ⟨s,hack,rfl⟩ := Option.map_eq_some_iff.mp hs
  exact ⟨s,hack,rfl⟩

theorem Inv.acknowledge (h : Inv q st taken acked) (htake : st.path.take .one = some (p,path))
    (hphase : st.phase = .sending) (hs : { st with path := path }.takeAck p.msg = some st') :
    Inv q st' taken (acked ++ [p]) := by
  obtain ⟨s,hack,rfl⟩ := takeAck_spec hs
  have hfeeds := h.feeds
  rw [Feeds,hphase] at hfeeds
  have hsends := (hfeeds.1.ack hfeeds.2 hack).1
  have hgrows := (Sender.advances_processAck hack).threads.length
  refine h.readers htake ?_ hgrows (fun _ => ?_) fun hw => ?_
  · cases hc : s.isPayloadSent with
    | true => exact ⟨hsends,hc,rfl⟩
    | false =>
      simp only [Feeds,Bool.false_eq_true,if_false,hphase]
      exact ⟨hsends,hc⟩
  · rw [hphase]
    split_ifs
    · exact fun hc => by cases hc
    · exact fun hc => by cases hc
  · rw [hw.phase] at hphase
    cases hphase

-- what the client does with the next message
inductive Reading (q : UploadRequest) (st : RoutedUpload) (p : UploadParcel)
    (path : Path UploadParcel) (st' : RoutedUpload) : Prop
  | ignored (he : st' = { st with path := path })
  | begins (hphase : st.phase = .requesting) (hown : p.msg.clientId = q.transmission.clientId)
      (htype : p.msg.type = .ack) (hserver : p.msg.serverId = q.serverIdentifier)
      (hs : { st with path := path }.beginSending q = some st')
  | acknowledges (hphase : st.phase = .sending)
      (hown : p.msg.clientId = q.transmission.clientId) (htype : p.msg.type = .ack)
      (hserver : p.msg.serverId = q.serverIdentifier)
      (hs : { st with path := path }.takeAck p.msg = some st')

theorem receive_spec (hs : st.receive q = some st') :
    ∃ p path, st.path.take .one = some (p,path) ∧ Reading q st p path st' := by
  obtain ⟨⟨p,path⟩,htake,hs⟩ := Option.bind_eq_some_iff.mp hs
  refine ⟨p,path,htake,?_⟩
  dsimp only at hs
  by_cases hother : p.msg.clientId ≠ q.transmission.clientId
  · rw [if_pos hother] at hs
    exact .ignored (Option.some.inj hs).symm
  · rw [if_neg hother] at hs
    have hown := not_ne_iff.mp hother
    cases hphase : st.phase with
    | requesting =>
      simp only [hphase] at hs
      split_ifs at hs with hskip
      · exact .ignored (hphase ▸ (Option.some.inj hs).symm)
      · rw [not_or,not_ne_iff,not_or,not_ne_iff,not_ne_iff] at hskip
        exact .begins hphase hown hskip.1 hskip.2.2 (hphase ▸ hs)
    | sending =>
      simp only [hphase] at hs
      split_ifs at hs with hack
      · exact .acknowledges hphase hown hack.2 hack.1 (hphase ▸ hs)
      · exact .ignored (hphase ▸ (Option.some.inj hs).symm)
    | uploaded m =>
      simp only [hphase] at hs
      cases hs

theorem Inv.receive (h : Inv q st taken acked) (hs : st.receive q = some st') :
    ∃ p, Inv q st' taken (acked ++ [p]) := by
  obtain ⟨p,path,htake,hreading⟩ := receive_spec hs
  obtain ⟨_,_,hanswered,_⟩ := h.read htake
  refine ⟨p,?_⟩
  cases hreading with
  | ignored he => exact he ▸ h.readers htake h.feeds le_rfl id fun hw => hw.phase
  | begins hphase hown htype hserver hbegin =>
    exact h.begin htake hphase (hanswered.current hown htype hserver) hbegin
  | acknowledges hphase _ _ _ htakes => exact h.acknowledge htake hphase htakes

-- what other clients and their threads send is not this upload's
theorem Inv.other (h : Inv q st taken acked) {source : Peer} {msg : Msg}
    (hs : RoutedUpload.other q st source msg = some st') : Inv q st' taken acked := by
  unfold RoutedUpload.other at hs
  split_ifs at hs with hother
  obtain rfl := Option.some.inj hs
  cases source with
  | one =>
    refine h.pushed rfl (fun y _ => Origin.follows_other y.origin) hother le_rfl rfl h.feeds ?_
    refine h.stage.same rfl rfl id (fun hw => ⟨hw.phase,?_⟩) fun _ r hr => ?_
    · rw [Path.line_send_other _ _ _ (by decide)]
      exact hw.silent
    · rw [Path.line_send_self,DelayLine.contents_push,List.mem_append,List.mem_singleton] at hr
      refine hr.imp_right fun he => ?_
      rw [he]
      exact fun hc => by cases hc
  | two =>
    have hone : ∀ l, (st.path.send .two ⟨msg,.other,false⟩).line .one l = st.path.line .one l :=
      fun _ => Path.line_send_other _ _ _ (by decide)
    refine ⟨h.feeds,hone taken ▸ h.sent,hone taken ▸ h.told,?_,?_,?_⟩
    · rw [Path.line_send_self]
      exact h.answers.push hother
    · rw [Path.line_send_self]
      exact h.source.push fun hcurrent => by cases hcurrent
    · refine h.stage.same rfl rfl id (fun hw => ⟨hw.phase,fun r hr => ?_⟩) fun _ r hr =>
        .inl (hone [] ▸ hr)
      rw [Path.line_send_self,DelayLine.contents_push,List.mem_append,List.mem_singleton] at hr
      rcases hr with hr | rfl
      · exact hw.silent r hr
      · rfl

theorem Inv.step (h : Inv q st taken acked) {e : Event} (hs : (system q).step st e = some st') :
    ∃ taken' acked', Inv q st' taken' acked' := by
  cases e with
  | request => exact ⟨taken,acked,h.request hs⟩
  | attempt k fails => exact ⟨taken,acked,h.attempt hs⟩
  | other source msg => exact ⟨taken,acked,h.other hs⟩
  | route source isDelayed isDamage =>
    obtain ⟨path,hp,rfl⟩ := Option.map_eq_some_iff.mp hs
    have hl : Path.Evolves UploadParcel.mark (fun _ _ => True) st.path path :=
      Path.evolves_route hp fun _ _ _ _ _ => trivial
    exact ⟨taken,acked,h.evolves hl⟩
  | idle =>
    obtain rfl := Option.some.inj hs
    exact ⟨taken,acked,h.evolves (Path.evolves_idle UploadParcel.mark (fun _ _ => True) st.path)⟩
  | serve disk =>
    obtain ⟨p,hserved⟩ := h.serve hs
    exact ⟨taken ++ [p],acked,hserved.inv⟩
  | receive =>
    obtain ⟨p,hinv⟩ := h.receive hs
    exact ⟨taken,acked ++ [p],hinv⟩

theorem inv_reachable (h : (system q).Reachable st) : ∃ taken acked, Inv q st taken acked :=
  (system q).reachable_invariant (I := fun st => ∃ taken acked, Inv q st taken acked)
    (fun _ hinit => ⟨[],[],inv_init hinit⟩) (fun _ _ _ ⟨_,_,hi⟩ hs => hi.step hs) h

theorem requestMsg_filename (hfits : q.filename.length ≤ bufferLength) :
    (Upload.requestMsg q).buffer.copyOut (Upload.requestMsg q).length.toNat = q.filename := by
  simp only [Upload.requestMsg,SenderThread.create,Int.toNat_natCast]
  exact Buffer.copyOut_copyIn hfits

theorem Inv.saved_once (h : Inv q st taken acked) (hfits : q.filename.length ≤ bufferLength) :
    st.saves = [] ∨
      st.saves = [(q.filename,⟨q.transmission.contents.length,q.transmission.contents⟩)] := by
  cases h.stage with
  | waits hw => exact .inl hw.saves
  | receives hr => exact .inl hr.saves
  | saved hd => exact .inr (requestMsg_filename hfits ▸ hd.saves)

theorem upload_saved_once (hfits : q.filename.length ≤ bufferLength)
    (h : (system q).Reachable st) : st.saves = [] ∨
      st.saves = [(q.filename,⟨q.transmission.contents.length,q.transmission.contents⟩)] := by
  obtain ⟨taken,acked,hinv⟩ := inv_reachable h
  exact hinv.saved_once hfits

def oneByteRequest : UploadRequest := ⟨5,[97],⟨5,9,[65],2⟩⟩

def oneByteOpening : RoutedUpload where
  phase := .requesting
  sender := Sender.create 5 9
  base := 0
  server := { ServerThread.create 5 with
    currentState := .waitingForRequest
    receiver := some (Receiver.create 5 9) }
  path := Path.start
  saves := []

theorem init_oneByteOpening : Init oneByteRequest oneByteOpening := by
  have hempty : ∀ peer p, p ∉ (oneByteOpening.path.line peer []).contents := by
    intro peer p hp
    cases peer <;> cases hp
  refine ⟨rfl,rfl,rfl,by simp [oneByteOpening,Sender.create],rfl,rfl,rfl,
    fun peer p hp => absurd hp (hempty peer p),fun p hp => absurd hp (hempty .one p),?_,rfl⟩
  intro peer p hp
  cases peer <;> cases hp

-- two copies of the request are answered, and the second answer passes for that of packet 0
def oneByteEvents : List Event :=
  [.request,.request,.route .one false false,.route .one false false,.serve .empty,
    .serve .empty,.route .two false false,.receive,.attempt 0 false,.route .one false false,
    .serve .empty,.route .two false false,.receive,.route .two false false,.receive,
    .attempt 1 false,.route .one false false,.serve .empty]

theorem upload_saved_once_one_byte : ∃ st, (system oneByteRequest).Reachable st ∧
    st.saves ≠ [] ∧ (st.saves = [] ∨ st.saves = [([97],⟨1,[65]⟩)]) := by
  have hrun : ((system oneByteRequest).run oneByteOpening oneByteEvents).any
      (fun st => !st.saves.isEmpty) = true := by decide
  obtain ⟨st,hst,hsaves⟩ := (Option.any_eq_true _ _).mp hrun
  have hr := (system oneByteRequest).reachable_of_run init_oneByteOpening hst
  refine ⟨st,hr,fun hnil => ?_,upload_saved_once (by decide) hr⟩
  rw [hnil] at hsaves
  cases hsaves

end RoutedUpload
end FtpOverUdp
