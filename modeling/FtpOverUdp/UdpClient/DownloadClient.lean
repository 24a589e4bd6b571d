import FtpOverUdp.UdpClient.DownloadLines

namespace FtpOverUdp

open Library

namespace Download

open Transfer (packets Fills Whole Took)

def eofNumber (q : DownloadRequest) (contents : List UInt8) : ℤ :=
  (residue q.sequenceNumber (transmission q contents).count).val

def View (q : DownloadRequest) (contents : List UInt8) (n : ℕ) (st : Download)
    (seen : List DownloadParcel) : Prop :=
  match st.phase with
  | .receiving => (st.isAcked = true → 0 < n) ∧ st.receiver.isComplete = false ∧
      Fills (transmission q contents) st.receiver (packets DownloadParcel.thread DownloadParcel.msg seen)
  | .flushing m => (st.isAcked = true ∧ 0 < n) ∧ st.receiver.isComplete = true ∧
      Whole (transmission q contents) st.receiver ∧ m = nextNumber q (eofNumber q contents)
  | .finished m payload => (st.isAcked = true ∧ 0 < n) ∧
      payload = ⟨contents.length,contents⟩ ∧ m = nextNumber q (eofNumber q contents)
  | .catching m what => 0 < st.refusals ∧ m = wrap (q.sequenceNumber.val + 1) ∧
      what = "No such file."
  | .noSuchFile => 0 < st.refusals
  | .uncaught => 0 < st.refusals ∧ q.operation = .list

-- `begun`: an EOF is started only after the request has been acknowledged
structure Client (q : DownloadRequest) (contents : List UInt8) (n : ℕ) (st : Download)
    (seen taken : List DownloadParcel) : Prop where
  lines : Lines q contents n st.path st.isAcked st.refusals seen taken
  view : View q contents n st seen
  fits : 0 < n → contents ≠ [] ∧ contents.length < 2 ^ 31
  span : n ≤ (transmission q contents).count + 1
  begun : (transmission q contents).count < n → st.isAcked = true

variable {q : DownloadRequest} {st st' : Download} {contents : List UInt8} {n : ℕ}
  {seen taken : List DownloadParcel} {p : DownloadParcel} {path : Path DownloadParcel}

theorem message_fields (x : Transmission) (k : ℕ) : (x.message k).serverId = x.serverId ∧
    (x.message k).clientId = x.clientId ∧
    ((x.message k).type = .resp ∧ k < x.count ∨ (x.message k).type = .respErr ∧ x.count ≤ k) := by
  rcases Nat.lt_or_ge k x.count with hlt | hge
  · have hmsg : x.message k = _ := if_pos hlt
    rw [hmsg]
    exact ⟨rfl,rfl,.inl ⟨rfl,hlt⟩⟩
  · have hmsg : x.message k = _ := if_neg (Nat.not_lt.mpr hge)
    rw [hmsg]
    exact ⟨rfl,rfl,.inr ⟨rfl,hge⟩⟩

-- the two kinds of message the client's loop looks at
theorem offered_cases (h : Offered q contents n st.refusals p)
    (htype : p.msg.type = .resp ∨ p.msg.type = .respErr) :
    (∃ k, p.thread = some k ∧ k < n ∧ p.msg = (transmission q contents).message k) ∨
      p.thread = none ∧ Refusal q p.msg ∧ 0 < st.refusals := by
  cases hthread : p.thread with
  | some k =>
    obtain ⟨hk,hmsg⟩ := h.copies k hthread
    exact .inl ⟨k,rfl,hk,hmsg⟩
  | none =>
    rcases h.kind hthread with hshake | hrefusal
    · rw [hshake] at htype
      simp at htype
    · exact .inr ⟨rfl,hrefusal⟩

theorem request_spec (hs : request q st = some st') : st.isAcked = false ∧
    st' = { st with path := st.path.send .one ⟨requestMsg q,none,st.isAcked⟩ } := by
  unfold request at hs
  split_ifs at hs with hstop
  exact ⟨Bool.eq_false_iff.mpr fun hacked => hstop (.inl hacked),(Option.some.inj hs).symm⟩

theorem Client.request (h : Client q contents n st seen taken) (hs : request q st = some st') :
    Client q contents n st' seen taken := by
  obtain ⟨hopen,rfl⟩ := request_spec hs
  refine ⟨h.lines.tell ⟨.inr (.inl ⟨rfl,hopen⟩),fun hc => ?_⟩ id,h.view,h.fits,h.span,h.begun⟩
  rw [hopen] at hc
  cases hc

theorem Client.evolves {admits : Peer → DownloadParcel → Prop} (h : Client q contents n st seen taken)
    (hl : st.path.Evolves id admits path) :
    Client q contents n { st with path := path } seen taken :=
  ⟨h.lines.evolves hl,h.view,h.fits,h.span,h.begun⟩

theorem Client.timeOut (h : Client q contents n st seen taken) (hs : st.timeOut = some st') :
    Client q contents n st' seen taken := by
  have hview := h.view
  unfold Download.timeOut at hs
  split at hs
  · rename_i m hphase
    obtain ⟨⟨payload,rc⟩,hgot,rfl⟩ := Option.map_eq_some_iff.mp hs
    rw [View,hphase] at hview
    obtain ⟨⟨hacked,hn⟩,hc,hwhole,hm⟩ := hview
    obtain ⟨hne,_⟩ := h.fits hn
    have hpayload := (hwhole.getPayload hne hc).1
    rw [hgot] at hpayload
    exact ⟨h.lines,⟨⟨hacked,hn⟩,Option.some.inj hpayload,hm⟩,h.fits,h.span,h.begun⟩
  · cases hs

theorem Client.handle (h : Client q contents n st seen taken) (hs : st.handle q = some st') :
    Client q contents n st' seen taken := by
  have hview := h.view
  unfold Download.handle at hs
  split at hs
  · rename_i hphase _
    rw [View,hphase] at hview
    rw [if_pos hview.2] at hs
    obtain rfl := Option.some.inj hs
    exact ⟨h.lines.mono (fun _ => rfl) le_rfl le_rfl,hview.1,h.fits,h.span,fun _ => rfl⟩
  · rename_i hphase hlist
    rw [View,hphase] at hview
    obtain rfl := Option.some.inj hs
    exact ⟨h.lines,⟨hview.1,hlist⟩,h.fits,h.span,h.begun⟩
  · cases hs

theorem handleMsg_copy {serverMsg : Msg} {handled : Receiver.Handled}
    (hh : st.receiver.handleMsg serverMsg = some handled) (hnone : handled.thrown = none)
    (hs : handleMsg q st serverMsg = some st') : st' = { st with
      receiver := handled.receiver
      path := st.acknowledge handled.sent
      phase := if handled.receiver.isPayloadComplete then
        .flushing (nextNumber q serverMsg.sequenceNumber) else st.phase } := by
  obtain ⟨handled',hh',rfl⟩ := Option.map_eq_some_iff.mp hs
  obtain rfl := Option.some.inj (hh.symm.trans hh')
  simp only [hnone]
  split_ifs
  · rfl
  · rfl

theorem Client.copy (h : Client q contents n st seen taken) (hphase : st.phase = .receiving)
    (htake : st.path.take .one = some (p,path)) {k : ℕ} (hthread : p.thread = some k) (hk : k < n)
    (hmsg : p.msg = (transmission q contents).message k) {a : Bool}
    (hmono : st.isAcked = true → a = true)
    (hseq : residue q.sequenceNumber k = q.sequenceNumber → a = true)
    (hs : handleMsg q { st with
      path := path
      isAcked := a } p.msg = some st') : Client q contents n st' (seen ++ [p]) taken := by
  have hlines := ((h.lines.see htake).1).mono hmono le_rfl le_rfl
  have hview := h.view
  rw [View,hphase] at hview
  obtain ⟨_,hopen,hfills⟩ := hview
  obtain ⟨hne,hfits⟩ := h.fits (by omega)
  have honce := hlines.once
  rw [Transfer.packets_some hthread] at honce
  obtain ⟨handled,hh,_⟩ := Option.map_eq_some_iff.mp hs
  obtain ⟨hfills',htook,hnone⟩ := hfills.handle hne hfits hopen hmsg honce hh
  obtain rfl := handleMsg_copy hh hnone hs
  rw [← Transfer.packets_some hthread] at hfills'
  have hnumber : p.msg.sequenceNumber = (residue q.sequenceNumber k).val :=
    hmsg ▸ Transfer.message_sequenceNumber (transmission q contents) k
  have hbegun : (transmission q contents).count < n → a = true := fun hlt => hmono (h.begun hlt)
  have htold : ∀ ack : Msg, ack.type = .ack →
      ack.sequenceNumber = (residue q.sequenceNumber k).val → Told q a n ⟨ack,none,a⟩ :=
    fun ack htype hack => ⟨.inr (.inr ⟨htype,_,hack,hseq⟩),fun ha => ⟨ha,by omega⟩⟩
  cases htook with
  | data hlt hopen' hsent =>
    refine ⟨?_,?_,h.fits,h.span,hbegun⟩
    · simp only [hsent]
      exact hlines.tell (htold _ rfl rfl) id
    · have hgoing : handled.receiver.isPayloadComplete = false := hopen'
      simp only [View,hgoing,Bool.false_eq_true,if_false,hphase]
      exact ⟨fun _ => by omega,hopen',hfills'⟩
  | eof hge hdone hsent =>
    have hcount : k = (transmission q contents).count := by
      have := h.span
      have hge : (transmission q contents).count ≤ k := hge
      omega
    refine ⟨?_,?_,h.fits,h.span,hbegun⟩
    · simp only [hsent]
      exact hlines.tell (htold _ rfl rfl) id
    · have hended : handled.receiver.isPayloadComplete = true := hdone
      simp only [View,hended,if_true]
      refine ⟨⟨hbegun (by omega),by omega⟩,hdone,hfills'.complete hdone,?_⟩
      rw [hnumber,hcount]
      rfl
  | early hge hopen' hsent =>
    refine ⟨?_,?_,h.fits,h.span,hbegun⟩
    · simp only [hsent]
      exact hlines
    · have hgoing : handled.receiver.isPayloadComplete = false := hopen'
      simp only [View,hgoing,Bool.false_eq_true,if_false,hphase]
      exact ⟨fun _ => by omega,hopen',hfills'⟩

theorem Client.refuse (h : Client q contents n st seen taken) (hphase : st.phase = .receiving)
    (htake : st.path.take .one = some (p,path)) (hrefusal : Refusal q p.msg)
    (hcount : 0 < st.refusals) (hs : handleMsg q { st with path := path } p.msg = some st') :
    Client q contents n st' (seen ++ [p]) taken := by
  have hlines := (h.lines.see htake).1
  have hview := h.view
  rw [View,hphase] at hview
  obtain ⟨hacked,hopen,hfills⟩ := hview
  have hseed : st.receiver.sequenceSeed = q.sequenceNumber.val := (hfills.pending hopen).view.seed
  have hh : st.receiver.handleMsg p.msg =
      some ⟨st.receiver,[st.receiver.ackMsg p.msg.sequenceNumber],some "No such file."⟩ := by
    rw [Receiver.handleMsg,hseed,if_pos ⟨hrefusal.2,hrefusal.1⟩]
  obtain ⟨handled,hh',rfl⟩ := Option.map_eq_some_iff.mp hs
  obtain rfl := Option.some.inj (hh.symm.trans hh')
  refine ⟨hlines.tell ⟨.inr (.inr ⟨rfl,residue q.sequenceNumber 1,?_,?_⟩),fun ha => ⟨ha,hacked ha⟩⟩ id,
    ⟨hcount,hrefusal.2,rfl⟩,h.fits,h.span,h.begun⟩
  · have hwrap := wrap_add q.sequenceNumber 1
    change p.msg.sequenceNumber = _
    rw [hrefusal.2,add_comm]
    exact hwrap
  · intro he
    exact absurd (residue_inj ((residue_zero _).trans he.symm) (Nat.zero_le 1) (by decide)) (by decide)

theorem Client.ignore (h : Client q contents n st seen taken)
    (htake : st.path.take .one = some (p,path))
    (hthread : st.phase = .receiving → p.thread = none) :
    Client q contents n { st with path := path } (seen ++ [p]) taken := by
  refine ⟨(h.lines.see htake).1,?_,h.fits,h.span,h.begun⟩
  have hview := h.view
  cases hphase : st.phase with
  | receiving =>
    simp only [View,hphase,Transfer.packets_none (hthread hphase)] at hview ⊢
    exact hview
  | flushing | catching | noSuchFile | uncaught | finished =>
    simp only [View,hphase] at hview ⊢
    exact hview

theorem text_type {msg : Msg} {text : List UInt8} (h : msg.isText text = true) :
    msg.type = .respErr := by
  simp only [Msg.isText,Bool.and_eq_true,decide_eq_true_eq] at h
  exact h.1

theorem Client.reaffirm (h : Client q contents n st seen taken) {m : ℤ}
    (hphase : st.phase = .flushing m) (htake : st.path.take .one = some (p,path))
    (heof : p.msg.isText eofText = true) :
    Client q contents n { st with
      path := path.send .one ⟨finalAck q p.msg,none,st.isAcked⟩ } (seen ++ [p]) taken := by
  obtain ⟨hlines,hoffered⟩ := h.lines.see htake
  have hview := h.view
  rw [View,hphase] at hview
  obtain ⟨⟨hacked,hn⟩,hview⟩ := hview
  refine ⟨hlines.tell ?_ id,?_,h.fits,h.span,h.begun⟩
  · rcases offered_cases hoffered (.inr (text_type heof)) with ⟨k,_,_,hmsg⟩ | ⟨_,hrefusal,_⟩
    · refine ⟨.inr (.inr ⟨rfl,residue q.sequenceNumber k,?_,fun _ => hacked⟩),fun _ => ⟨hacked,hn⟩⟩
      change p.msg.sequenceNumber = _
      rw [hmsg]
      exact Transfer.message_sequenceNumber (transmission q contents) k
    · have htext := hrefusal.1
      simp only [Msg.isText,Bool.and_eq_true,decide_eq_true_eq] at htext heof
      exact absurd (heof.2.symm.trans htext.2) (by decide)
  · rw [View,hphase]
    exact ⟨⟨hacked,hn⟩,hview⟩

theorem Client.receive_receiving (h : Client q contents n st seen taken)
    (hphase : st.phase = .receiving) (htake : st.path.take .one = some (p,path))
    (hs : st.receive q = some st') : Client q contents n st' (seen ++ [p]) taken := by
  obtain ⟨_,hoffered⟩ := h.lines.see htake
  have hnone : (p.msg.serverId ≠ q.serverIdentifier ∨
      p.msg.type ≠ .resp ∧ p.msg.type ≠ .respErr) → p.thread = none := by
    intro hskip
    cases hthread : p.thread with
    | none => rfl
    | some k =>
      obtain ⟨_,hmsg⟩ := hoffered.copies k hthread
      obtain ⟨hid,_,htype⟩ := message_fields (transmission q contents) k
      rw [← show p.msg = _ from hmsg] at hid htype
      rcases hskip with hne | ⟨hresp,herr⟩
      · exact absurd hid hne
      · exact absurd htype (by simp [hresp,herr])
  simp only [Download.receive,htake,Option.bind_some,hphase] at hs
  split_ifs at hs with hid
  · obtain rfl := Option.some.inj hs
    exact hphase ▸ h.ignore htake fun _ => hnone (.inl hid)
  · split at hs
    · rename_i htype
      rcases offered_cases hoffered (.inl htype) with ⟨k,hthread,hk,hmsg⟩ | ⟨_,hrefusal,_⟩
      · refine h.copy hphase htake hthread hk hmsg (a := st.isAcked ||
          decide (p.msg.sequenceNumber = q.sequenceNumber.val)) (fun ha => by simp [ha]) ?_
          (hphase ▸ hs)
        intro hk
        have hnumber := Transfer.message_sequenceNumber (transmission q contents) k
        rw [← show p.msg = _ from hmsg] at hnumber
        simp [hnumber,show residue (transmission q contents).seed k = q.sequenceNumber from hk]
      · rw [text_type hrefusal.1] at htype
        cases htype
    · rename_i htype
      rcases offered_cases hoffered (.inr htype) with ⟨k,hthread,hk,hmsg⟩ | ⟨_,hrefusal,hcount⟩
      · refine h.copy hphase htake hthread hk hmsg id (fun _ => h.begun ?_) (hphase ▸ hs)
        obtain ⟨_,_,⟨hresp,_⟩ | ⟨_,hge⟩⟩ := message_fields (transmission q contents) k
        · rw [← show p.msg = _ from hmsg,htype] at hresp
          cases hresp
        · omega
      · exact h.refuse hphase htake hrefusal hcount (hphase ▸ hs)
    · rename_i hresp herr
      obtain rfl := Option.some.inj hs
      exact hphase ▸ h.ignore htake fun _ => hnone (.inr ⟨hresp,herr⟩)

theorem Client.receive (h : Client q contents n st seen taken)
    (htake : st.path.take .one = some (p,path)) (hs : st.receive q = some st') :
    Client q contents n st' (seen ++ [p]) taken := by
  have hnext := hs
  simp only [Download.receive,htake,Option.bind_some] at hnext
  cases hphase : st.phase with
  | receiving => exact h.receive_receiving hphase htake hs
  | flushing m =>
    simp only [hphase] at hnext
    split_ifs at hnext with heof
    · obtain rfl := Option.some.inj hnext
      exact hphase ▸ h.reaffirm hphase htake heof
    · obtain rfl := Option.some.inj hnext
      exact hphase ▸ h.ignore htake fun hr => by rw [hphase] at hr; cases hr
  | catching | noSuchFile | uncaught | finished =>
    simp only [hphase] at hnext
    cases hnext

end Download
end FtpOverUdp
