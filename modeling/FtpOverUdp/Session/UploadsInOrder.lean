import FtpOverUdp.Session.UploadSync

namespace FtpOverUdp

open Library

namespace UploadSession

open RoutedUpload (Late Exact Told Answered HeldOnce)
open ServerThread (Ready Named)

def Calls (o : ℤ) (p : UploadParcel) : Prop := p.origin = .handshake → p.msg.serverId = o

def Answers (serverIdentifier : ℤ) (p : UploadParcel) : Prop :=
  p.origin = .other ∨ p.origin = .past ∨ p.msg.serverId = serverIdentifier

-- a run of `performUpload` in the middle of the session
structure Uploads (q : UploadRequest) (st : UploadSession) : Prop where
  exact : ∃ taken acked, Exact q st.upload taken acked
  nonempty : q.transmission.contents ≠ []
  fits : q.filename.length ≤ bufferLength
  serverIdentifier : q.serverIdentifier = st.serverIdentifier
  clientId : q.transmission.clientId = st.clientId
  serverId : q.transmission.serverId = nullServerId
  named : Named st.upload.server st.serverIdentifier
  replaced : ∃ o, Replaced o st.serverIdentifier st ∧
    (st.upload.path.line .one []).All (Calls o)
  answers : (st.upload.path.line .two []).All (Answers st.serverIdentifier)

def file (q : UploadRequest) : List UInt8 × Payload :=
  (q.filename,⟨q.transmission.contents.length,q.transmission.contents⟩)

inductive Phase (st : UploadSession) : Prop
  | between (voice : Option ℤ) (taken : List UploadParcel)
      (hstage : st.stage = .menu ∨ st.stage = .syncing)
      (h : Between st.serverIdentifier voice st taken)
  | synced (o : ℤ) (taken : List UploadParcel) (hstage : st.stage = .synced)
      (h : Between o (some st.serverIdentifier) st taken)
  | uploading (q : UploadRequest) (hstage : st.stage = .uploading q) (h : Uploads q st)

structure Inv (st : UploadSession) : Prop where
  phase : Phase st
  saves : st.saves = st.finished.map file

variable {st st' : UploadSession} {o n : ℤ} {voice : Option ℤ} {taken : List UploadParcel}
  {p : UploadParcel} {path : Path UploadParcel} {disk : Disk} {drawn : ℤ}
  {q : UploadRequest} {upload : RoutedUpload}

-- what `syncServer` does with a message
inductive Read (st : UploadSession) (p : UploadParcel) (path : Path UploadParcel)
    (st' : UploadSession) : Prop
  | skipped (he : st' = st.via path)
  | answered (htype : p.msg.type = .handshake) (hown : p.msg.clientId = st.clientId)
      (hserver : p.msg.serverId ≠ st.serverIdentifier)
      (he : st' = { st.via path with
        stage := .synced
        serverIdentifier := p.msg.serverId
        sequenceNumber := wrap (st.sequenceNumber + 1) })

theorem read_spec (hs : st.read = some st') : st.stage = .syncing ∧ ∃ p path,
    st.upload.path.take .one = some (p,path) ∧ Read st p path st' := by
  unfold UploadSession.read at hs
  split at hs
  · rename_i hstage
    obtain ⟨⟨p,path⟩,htake,rfl⟩ := Option.map_eq_some_iff.mp hs
    refine ⟨hstage,p,path,htake,?_⟩
    dsimp only
    split_ifs with h
    · exact .answered h.2.1 h.1 h.2.2.1 rfl
    · exact .skipped rfl
  · cases hs

theorem Between.read (h : Between st.serverIdentifier voice st taken) (hstage : st.stage = .syncing)
    (htake : st.upload.path.take .one = some (p,path)) (hread : Read st p path st') :
    Phase st' := by
  obtain ⟨hbetween,hvoiced⟩ := h.took htake
  cases hread with
  | skipped he =>
    subst he
    exact .between voice taken (.inr hstage) hbetween
  | answered _ hown hserver he =>
    subst he
    have hvoice : some p.msg.serverId = voice := by
      unfold Voiced at hvoiced
      split_ifs at hvoiced
      · exact absurd hown hvoiced
      · exact (hvoiced.resolve_left hserver).1
    rw [← hvoice] at hbetween
    refine .synced st.serverIdentifier taken rfl ⟨hbetween.serverId,hbetween.clientId,
      hbetween.acked,hbetween.saves,hbetween.sent,hbetween.asked,hbetween.voiced,hbetween.held,?_⟩
    exact hbetween.meets.same rfl (undisturbed_rfl _ _) rfl id fun _ hx => hx

theorem showMenu_spec (hs : st.showMenu = some st') : st.stage = .menu ∧ st' = { st with
    stage := .syncing
    sequenceNumber := wrap (st.sequenceNumber + 1)
    syncCount := st.syncCount + 1 } := by
  unfold UploadSession.showMenu at hs
  split at hs
  · rename_i hstage
    split_ifs at hs
    exact ⟨hstage,(Option.some.inj hs).symm⟩
  · cases hs

theorem Between.showMenu (h : Between st.serverIdentifier voice st taken) : Phase { st with
    stage := .syncing
    sequenceNumber := wrap (st.sequenceNumber + 1)
    syncCount := st.syncCount + 1 } := by
  refine .between voice taken (.inr rfl) ⟨h.serverId,h.clientId,h.acked,h.saves,h.sent,h.asked,
    h.voiced,h.held,?_⟩
  exact h.meets.same rfl (undisturbed_rfl _ _) rfl id fun _ hx => hx

theorem Voiced.earlier {q : UploadRequest} (hclient : q.transmission.clientId = st.clientId)
    (hserver : q.serverIdentifier = st.serverIdentifier) (hne : st.serverIdentifier ≠ o)
    (h : Voiced st.clientId o (some st.serverIdentifier) p) :
    RoutedUpload.Earlier q (p.arrived st.serverIdentifier .two) := by
  by_cases horigin : p.origin = .other
  · rw [Voiced,if_pos horigin] at h
    rw [UploadParcel.arrived,if_pos horigin]
    simp only [RoutedUpload.Earlier,horigin]
    exact hclient ▸ h
  · rw [Voiced,if_neg horigin] at h
    rw [UploadParcel.arrived,if_neg horigin]
    by_cases hid : p.msg.serverId = st.serverIdentifier
    · rw [if_pos hid]
      exact (h.resolve_left fun hc => hne (hid.symm.trans hc)).2
    · rw [if_neg hid]
      exact fun hc => hid (hc.trans hserver)

theorem Asked.earlier {q : UploadRequest} (hclient : q.transmission.clientId = st.clientId)
    (hclean : p.origin ≠ .past) (h : Asked st.clientId o p) : RoutedUpload.Earlier q p := by
  cases horigin : p.origin with
  | handshake =>
    simp only [Asked,RoutedUpload.Earlier,horigin] at h ⊢
    exact h.1
  | past => exact absurd horigin hclean
  | other =>
    simp only [Asked,RoutedUpload.Earlier,horigin] at h ⊢
    exact hclient ▸ h
  | request | packet => simp only [Asked,horigin] at h

theorem arrived_cases (serverIdentifier : ℤ) (p : UploadParcel) :
    p.origin = .other ∧ p.arrived serverIdentifier .two = p ∨
      p.msg.serverId = serverIdentifier ∧
        p.arrived serverIdentifier .two = { p with origin := .handshake } ∨
      p.arrived serverIdentifier .two = { p with origin := .past } := by
  by_cases horigin : p.origin = .other
  · exact .inl ⟨horigin,if_pos horigin⟩
  · by_cases hid : p.msg.serverId = serverIdentifier
    · exact .inr (.inl ⟨hid,(if_neg horigin).trans (if_pos hid)⟩)
    · exact .inr (.inr ((if_neg horigin).trans (if_neg hid)))

theorem line_nextUpload (st : UploadSession) (peer : Peer) :
    st.nextUpload.path.line peer [] =
      (st.upload.path.line peer []).map (UploadParcel.arrived st.serverIdentifier peer) :=
  Path.line_map (UploadParcel.arrived st.serverIdentifier) st.upload.path peer []

theorem Between.held_nextUpload (h : Between o voice st taken) (peer : Peer) :
    ∀ p ∈ (st.nextUpload.path.line peer []).held, p.delayed = true := by
  intro p hp
  rw [line_nextUpload] at hp
  obtain ⟨a,ha,rfl⟩ := Option.mem_map.mp hp
  cases peer with
  | one => exact h.sent.held a ha
  | two =>
    have hdelayed := h.held a ha
    rcases arrived_cases st.serverIdentifier a with ⟨_,he⟩ | ⟨_,he⟩ | he
    all_goals rw [he]; exact hdelayed

theorem performUpload_spec {filename contents : List UInt8}
    (hs : st.performUpload filename contents = some st') : st.stage = .synced ∧ ∃ seed,
      st' = { st with
        stage := .uploading (st.nextRequest filename contents seed)
        upload := st.nextUpload } := by
  unfold UploadSession.performUpload at hs
  split at hs
  · rename_i hstage
    obtain ⟨seed,_,rfl⟩ := Option.map_eq_some_iff.mp hs
    exact ⟨hstage,seed,rfl⟩
  · cases hs

theorem Between.performUpload (h : Between o (some st.serverIdentifier) st taken)
    {filename contents : List UInt8} (hfits : filename.length ≤ bufferLength)
    (hne : contents ≠ []) (seed : Slot) :
    Phase { st with
      stage := .uploading (st.nextRequest filename contents seed)
      upload := st.nextUpload } := by
  obtain ⟨hnew,hready,hclean⟩ : Replaced o st.serverIdentifier st ∧
      Ready st.upload.server st.serverIdentifier ∧
      (st.upload.path.line .one []).All fun p => p.origin ≠ .past := by
    cases h.meets with
    | greeted _ hnew hready hclean => exact ⟨hnew,hready,hclean⟩
  have hasked : (st.upload.path.line .one []).All fun p =>
      Asked st.clientId o p ∧ p.origin ≠ .past :=
    fun p hp => ⟨Path.all_nil h.asked p hp,hclean p hp⟩
  have hinit : RoutedUpload.Init (st.nextRequest filename contents seed) st.nextUpload := by
    refine ⟨rfl,rfl,h.clientId,h.acked,rfl,hready.state,hready.receiver,?_,?_,
      h.held_nextUpload,h.saves⟩
    · intro peer
      rw [line_nextUpload]
      cases peer with
      | one => exact hasked.map fun p hp => hp.1.earlier rfl hp.2
      | two => exact h.voiced.map fun p hp => hp.earlier rfl rfl hnew.fresh
    · rw [line_nextUpload]
      exact hclean.map fun p hp => hp
  refine .uploading _ rfl ⟨⟨[],[],RoutedUpload.exact_init hinit⟩,hne,hfits,rfl,rfl,
    h.serverId,hready.named,⟨o,hnew.same rfl (undisturbed_rfl _ _),?_⟩,?_⟩
  · change (st.nextUpload.path.line .one []).All _
    rw [line_nextUpload]
    refine hasked.map fun p hp (horigin : p.origin = .handshake) => ?_
    have hp := hp.1
    simp only [Asked,horigin] at hp
    exact hp.2
  · change (st.nextUpload.path.line .two []).All _
    rw [line_nextUpload]
    refine h.voiced.map fun p _ => ?_
    rcases arrived_cases st.serverIdentifier p with ⟨horigin,he⟩ | ⟨hid,he⟩ | he
    · rw [he]
      exact .inl horigin
    · rw [he]
      exact .inr (.inr hid)
    · rw [he]
      exact .inr (.inl rfl)

-- the steps of the client, the router and the others
theorem Uploads.same (h : Uploads q st)
    (hexact : ∃ taken acked, Exact q upload taken acked)
    (hserver : upload.server = st.upload.server)
    (hone : ∀ o, (st.upload.path.line .one []).All (Calls o) →
      (upload.path.line .one []).All (Calls o))
    (htwo : (st.upload.path.line .two []).All (Answers st.serverIdentifier) →
      (upload.path.line .two []).All (Answers st.serverIdentifier)) :
    Uploads q { st with upload := upload } := by
  obtain ⟨o,hnew,hcalls⟩ := h.replaced
  exact ⟨hexact,h.nonempty,h.fits,h.serverIdentifier,h.clientId,h.serverId,hserver ▸ h.named,
    ⟨o,hnew.same rfl (undisturbed_rfl _ _),hone o hcalls⟩,htwo h.answers⟩

theorem Uploads.pushed (h : Uploads q st) (hexact : ∃ taken acked, Exact q upload taken acked)
    (hserver : upload.server = st.upload.server) {new : UploadParcel}
    (hpath : upload.path = st.upload.path.send .one new) (hnew : new.origin ≠ .handshake) :
    Uploads q { st with upload := upload } := by
  refine h.same hexact hserver (fun o hcalls => ?_) fun hanswers => ?_
  · rw [hpath,Path.line_send_self]
    exact hcalls.push fun hc => absurd hc hnew
  · rw [hpath,Path.line_send_other _ _ _ (by decide)]
    exact hanswers

theorem Uploads.request (h : Uploads q st) (hs : RoutedUpload.request q st.upload = some upload) :
    Uploads q { st with upload := upload } := by
  obtain ⟨taken,acked,hexact⟩ := h.exact
  have hexact := hexact.request hs
  unfold RoutedUpload.request at hs
  split_ifs at hs
  obtain rfl := Option.some.inj hs
  exact h.pushed ⟨_,_,hexact⟩ rfl rfl fun hc => by cases hc

theorem Uploads.attempt (h : Uploads q st) {k : ℕ} {fails : Bool}
    (hs : st.upload.attempt k fails = some upload) : Uploads q { st with upload := upload } := by
  obtain ⟨taken,acked,hexact⟩ := h.exact
  have hexact := hexact.attempt hs
  obtain ⟨s,a,_,⟨msg,_,rfl⟩ | ⟨_,rfl⟩⟩ := RoutedUpload.attempt_spec hs
  · exact h.pushed ⟨_,_,hexact⟩ rfl rfl fun hc => by cases hc
  · exact h.same ⟨_,_,hexact⟩ rfl (fun _ hcalls => hcalls) id

theorem Uploads.receive (h : Uploads q st) (hs : st.upload.receive q = some upload) :
    Uploads q { st with upload := upload } := by
  obtain ⟨taken,acked,hexact⟩ := h.exact
  obtain ⟨_,hexact⟩ := hexact.receive h.nonempty hs
  obtain ⟨p,path,htake,hreading⟩ := RoutedUpload.receive_spec hs
  obtain ⟨hserver,hpath⟩ : upload.server = st.upload.server ∧ upload.path = path := by
    cases hreading with
    | ignored he => exact he ▸ ⟨rfl,rfl⟩
    | begins _ _ _ _ hs =>
      obtain ⟨_,_,rfl⟩ := RoutedUpload.beginSending_spec hs
      exact ⟨rfl,rfl⟩
    | acknowledges _ _ _ _ hs =>
      obtain ⟨_,_,rfl⟩ := RoutedUpload.takeAck_spec hs
      exact ⟨rfl,rfl⟩
  refine h.same ⟨_,_,hexact⟩ hserver (fun o hcalls => ?_) fun hanswers => ?_
  · rw [hpath,Path.line_take_other htake]
    exact hcalls
  · rw [hpath]
    exact (Path.all_take .two htake hanswers).2

theorem Uploads.evolves {admits : Peer → UploadParcel → Prop} (h : Uploads q st)
    (hl : st.upload.path.Evolves UploadParcel.mark admits path)
    (hadm : ∀ p, admits .two p → ¬Late p) : Uploads q (st.via path) := by
  obtain ⟨taken,acked,hexact⟩ := h.exact
  exact h.same ⟨_,_,hexact.evolves hl hadm⟩ rfl (fun _ hcalls => hl.all (fun _ hp => hp) hcalls)
    fun hanswers => hl.all (fun _ hp => hp) hanswers

theorem Uploads.other (h : Uploads q st) {source : Peer} {msg : Msg}
    (hs : st.other source msg = some st') : Uploads q st' := by
  obtain ⟨taken,acked,hexact⟩ := h.exact
  unfold UploadSession.other at hs
  split_ifs at hs with hother
  obtain rfl := Option.some.inj hs
  have hsent : RoutedUpload.other q st.upload source msg = some { st.upload with
      path := st.upload.path.send source ⟨msg,.other,false⟩ } := if_pos (h.clientId ▸ hother)
  have hexact := hexact.other hsent
  cases source with
  | one => exact h.pushed ⟨_,_,hexact⟩ rfl rfl fun hc => by cases hc
  | two =>
    refine h.same ⟨_,_,hexact⟩ rfl (fun o hcalls => ?_) fun hanswers => ?_
    · rw [Path.line_send_other _ _ _ (by decide)]
      exact hcalls
    · rw [Path.line_send_self]
      exact hanswers.push (.inl rfl)

-- what the dispatcher takes for this client during an upload
theorem Uploads.heard (h : Uploads q st) (htake : st.upload.path.take .two = some (p,path))
    (hown : p.msg.clientId = st.clientId) {tables : FtpServer} {t : FtpServer.Turn}
    (hs : st.tables.turn ⟨p.msg,drawn⟩ = some (tables,t)) :
    tables = st.tables ∧ t = ⟨p.msg.clientId,none,none,st.serverIdentifier⟩ := by
  obtain ⟨taken,acked,hexact⟩ := h.exact
  obtain ⟨_,_,htold,_⟩ := hexact.inv.take htake
  obtain ⟨o,hnew,hcalls⟩ := h.replaced
  refine hnew.heard hown ?_ hs
  cases horigin : p.origin with
  | handshake =>
    simp only [Told,horigin] at htold
    exact .inr (.inr ⟨htold,(Path.all_take .one htake hcalls).1 horigin⟩)
  | past => simp only [Told,horigin] at htold
  | other =>
    simp only [Told,horigin] at htold
    exact absurd (hown.trans h.clientId.symm) htold
  | request =>
    simp only [Told,horigin] at htold
    refine .inr (.inl ?_)
    rw [htold]
    exact ⟨fun hc => (by cases hc),h.serverIdentifier⟩
  | packet k =>
    simp only [Told,horigin] at htold
    refine .inl ?_
    rw [htold.2]
    exact (RoutedUpload.message_serverId _ k).trans h.serverId

theorem Uploads.serve (h : Uploads q st) (hs : st.serve drawn disk = some st') : Uploads q st' := by
  obtain ⟨taken,acked,hexact⟩ := h.exact
  obtain ⟨o,hnew,hcalls⟩ := h.replaced
  obtain ⟨p,path,htake,hturn⟩ := serve_spec hs
  have hcalls := (Path.all_take .one htake hcalls).2
  have htwo : path.line .two [] = st.upload.path.line .two [] := Path.line_take_other htake
  cases hturn with
  | other tables hother hkept =>
    have hserve : RoutedUpload.serve q st.upload disk = some { st.upload with path := path } := by
      rw [RoutedUpload.serve,htake]
      exact if_pos (h.clientId ▸ hother)
    obtain ⟨_,hexact⟩ := hexact.serve hserve
    exact ⟨⟨_,_,hexact⟩,h.nonempty,h.fits,h.serverIdentifier,h.clientId,h.serverId,h.named,
      ⟨o,hnew.same rfl hkept,hcalls⟩,htwo ▸ h.answers⟩
  | dropped tables t hown ht htarget =>
    obtain ⟨rfl,rfl⟩ := h.heard htake hown ht
    exact absurd htarget hnew.named
  | ran tables t r hown ht _ _ hrun =>
    obtain ⟨rfl,rfl⟩ := h.heard htake hown ht
    have hrun : st.upload.server.run p.msg disk = some r := hrun
    have hserve : RoutedUpload.serve q st.upload disk = some { st.upload with
        server := r.1
        path := RoutedUpload.replies p path r.2
        saves := st.upload.saves ++ RoutedUpload.saved r.2 } := by
      rw [RoutedUpload.serve,htake]
      refine (if_neg (not_not.mpr (hown.trans h.clientId.symm))).trans ?_
      rw [hrun]
      rfl
    obtain ⟨_,hexact⟩ := hexact.serve hserve
    obtain ⟨hnamed,hreplies⟩ := h.named.run hrun
    have hkept := (undisturbed_rfl st.clientId st.tables).dispatchMessage st.serverIdentifier p.msg
    refine ⟨⟨_,_,hexact⟩,h.nonempty,h.fits,h.serverIdentifier,h.clientId,h.serverId,hnamed,
      ⟨o,hnew.same rfl hkept,?_⟩,?_⟩
    · exact (RoutedUpload.replies_line_one r.2 path []).symm ▸ hcalls
    · refine RoutedUpload.replies_all (htwo ▸ h.answers) fun reply hr => ?_
      exact .inr (.inr (hreplies reply hr))

theorem outdated_cases (p : UploadParcel) : p.origin = .other ∧ p.outdated = p ∨
    p.origin ≠ .other ∧ p.outdated = { p with origin := .past } := by
  by_cases horigin : p.origin = .other
  · exact .inl ⟨horigin,if_pos horigin⟩
  · exact .inr ⟨horigin,if_neg horigin⟩

theorem line_outdated (path : Path UploadParcel) (peer : Peer) :
    (path.map fun _ => UploadParcel.outdated).line peer [] =
      (path.line peer []).map UploadParcel.outdated :=
  Path.line_map (fun _ => UploadParcel.outdated) path peer []

theorem held_outdated {peer : Peer} (h : ∀ p ∈ (path.line peer []).held, p.delayed = true) :
    ∀ p ∈ ((path.map fun _ => UploadParcel.outdated).line peer []).held, p.delayed = true := by
  intro p hp
  rw [line_outdated] at hp
  obtain ⟨a,ha,rfl⟩ := Option.mem_map.mp hp
  rcases outdated_cases a with ⟨_,he⟩ | ⟨_,he⟩
  all_goals rw [he]; exact h a ha

theorem not_greeting {b : Origin} (p : UploadParcel) : Greets p.outdated.origin b := by
  intro hc
  rcases outdated_cases p with ⟨horigin,he⟩ | ⟨_,he⟩
  · rw [he,horigin] at hc
    cases hc
  · rw [he] at hc
    cases hc

theorem Told.outdated {started : ℕ} (h : Told q started p) (hgreeted : p.origin ≠ .handshake)
    (hrequest : p.origin ≠ .request) (hnull : q.transmission.serverId = nullServerId) :
    Asked q.transmission.clientId o p.outdated := by
  rcases outdated_cases p with ⟨horigin,he⟩ | ⟨hother,he⟩
  · rw [he]
    simp only [Told,Asked,horigin] at h ⊢
    exact h
  · rw [he]
    cases horigin : p.origin with
    | handshake => exact absurd horigin hgreeted
    | past => simp only [Told,horigin] at h
    | other => exact absurd horigin hother
    | request => exact absurd horigin hrequest
    | packet k =>
      simp only [Told,horigin] at h
      simp only [Asked,h.2]
      exact ⟨RoutedUpload.message_type _ k,(RoutedUpload.message_serverId _ k).trans hnull⟩

theorem Answered.outdated {saves : List (List UInt8 × Payload)} (h : Answered q saves p)
    (hanswers : Answers o p) (haged : p.origin ≠ .past) :
    Voiced q.transmission.clientId o none p.outdated := by
  rcases outdated_cases p with ⟨horigin,he⟩ | ⟨hother,he⟩
  · rw [he,Voiced,if_pos horigin]
    simp only [Answered,horigin] at h
    exact h
  · rw [he]
    rcases hanswers with hc | hc | hserver
    · exact absurd hc hother
    · exact absurd hc haged
    · exact .inl hserver

def back (q : UploadRequest) (m : ℤ) (st : UploadSession) : UploadSession := { st with
  stage := .menu
  sequenceNumber := m
  upload := { st.upload with
    path := st.upload.path.map fun _ => UploadParcel.outdated
    saves := [] }
  finished := st.finished ++ [q]
  saves := st.saves ++ st.upload.saves }

theorem returned_spec (hs : st.returned = some st') : ∃ q m, st.stage = .uploading q ∧
    st.upload.phase = .uploaded m ∧ st' = back q m st := by
  unfold UploadSession.returned at hs
  split at hs
  · rename_i q m hstage hphase
    exact ⟨q,m,hstage,hphase,(Option.some.inj hs).symm⟩
  · cases hs

theorem Uploads.returned (h : Uploads q st) {m : ℤ} (hphase : st.upload.phase = .uploaded m) :
    Phase (back q m st) ∧ st.upload.saves = [file q] := by
  obtain ⟨taken,acked,hexact⟩ := h.exact
  obtain ⟨o,hnew,_⟩ := h.replaced
  have hreturned := hexact.returned h.nonempty hphase
  obtain ⟨hserver,hclient⟩ := hreturned.sends.ids h.nonempty
  have hsaves := hreturned.saved.saves
  rw [RoutedUpload.requestMsg_filename h.fits] at hsaves
  refine ⟨.between none [] (.inl rfl) ?_,hsaves⟩
  have htold : (st.upload.path.line .one []).All fun p => Told q st.upload.started p ∧
      p.origin ≠ .handshake ∧ p.origin ≠ .request := fun p hp =>
    ⟨Path.all_nil hexact.inv.told p hp,hreturned.greeted p hp,hreturned.saved.unrequested p hp⟩
  have hanswered : (st.upload.path.line .two []).All fun p =>
      Answered q st.upload.saves p ∧ Answers st.serverIdentifier p ∧ p.origin ≠ .past :=
    fun p hp => ⟨Path.all_nil hexact.inv.answers p hp,h.answers p hp,hreturned.aged p hp⟩
  refine ⟨hserver.trans h.serverId,hclient.trans h.clientId,
    hreturned.sends.all_acked h.nonempty hreturned.complete,rfl,?_,?_,?_,?_,?_⟩
  · refine DelayLine.ordered_of_all (fun y hy x _ => ?_) (held_outdated hexact.inv.sent.held)
    obtain ⟨a,_,rfl⟩ := DelayLine.mem_contents_map (line_outdated _ .one ▸ hy)
    exact not_greeting a
  · change ((st.upload.path.map fun _ => UploadParcel.outdated).line .one []).All _
    rw [line_outdated]
    exact htold.map fun p hp => h.clientId ▸ Told.outdated hp.1 hp.2.1 hp.2.2 h.serverId
  · change ((st.upload.path.map fun _ => UploadParcel.outdated).line .two []).All _
    rw [line_outdated]
    exact hanswered.map fun p hp => h.clientId ▸ Answered.outdated hp.1 hp.2.1 hp.2.2
  · exact held_outdated hexact.aged.held
  · exact .known hnew.named hnew.id ⟨h.named,hreturned.saved.state,hreturned.saved.receiver⟩

-- no acknowledgement that the router has held in an upload is held again, every file has a byte,
-- and its name fits into a message
def Admitted (st : UploadSession) : Event → Prop
  | .performUpload filename contents => filename.length ≤ bufferLength ∧ contents ≠ []
  | .route source isDelayed isDamage => ∀ q, st.stage = .uploading q →
      HeldOnce st.upload (.route source isDelayed isDamage)
  | _ => True

theorem inv_init (h : Init st) : Inv st := by
  have hother : ∀ peer, ∀ p ∈ (st.upload.path.line peer []).contents,
      p.origin = .other ∧ p.msg.clientId ≠ st.clientId := h.path
  refine ⟨.between none [] (.inl h.stage) ⟨?_,?_,?_,h.saves.2,?_,?_,?_,h.held .two,?_⟩,?_⟩
  · rw [h.sender]
    rfl
  · rw [h.sender]
    rfl
  · rw [h.sender]
    intro t ht
    cases ht
  · refine DelayLine.ordered_of_all (fun y hy x _ hgreets => ?_) (h.held .one)
    rw [(hother .one y hy).1] at hgreets
    cases hgreets
  · intro p hp
    obtain ⟨horigin,hclient⟩ := h.path .one p hp
    simp only [Asked,horigin]
    exact hclient
  · intro p hp
    obtain ⟨horigin,hclient⟩ := h.path .two p hp
    rw [Voiced,if_pos horigin]
    exact hclient
  · refine .unknown h.serverIdentifier h.tables fun p hp hpast => ?_
    rw [(h.path .one p hp).1] at hpast
    cases hpast
  · rw [h.saves.1,h.finished]
    rfl

theorem uploads_spec {f : UploadRequest → Option RoutedUpload} (hs : st.uploads f = some st') :
    ∃ q upload, st.stage = .uploading q ∧ f q = some upload ∧ st' = { st with upload := upload } := by
  unfold UploadSession.uploads at hs
  split at hs
  · rename_i q hstage
    obtain ⟨upload,hf,rfl⟩ := Option.map_eq_some_iff.mp hs
    exact ⟨q,upload,hstage,hf,rfl⟩
  · cases hs

theorem Inv.uploading (h : Inv st) {q : UploadRequest} (hstage : st.stage = .uploading q) :
    Uploads q st := by
  cases h.phase with
  | between _ _ hother _ =>
    rw [hstage] at hother
    rcases hother with hc | hc
    all_goals cases hc
  | synced _ _ hother _ =>
    rw [hstage] at hother
    cases hother
  | uploading q' hstage' h =>
    rw [hstage] at hstage'
    exact UploadStage.uploading.inj hstage' ▸ h

theorem Inv.between (h : Inv st) (hstage : st.stage = .menu ∨ st.stage = .syncing) :
    ∃ voice taken, Between st.serverIdentifier voice st taken := by
  cases h.phase with
  | between voice taken _ h => exact ⟨voice,taken,h⟩
  | synced _ _ hother _ =>
    rw [hother] at hstage
    rcases hstage with hc | hc
    all_goals cases hc
  | uploading _ hother _ =>
    rw [hother] at hstage
    rcases hstage with hc | hc
    all_goals cases hc

theorem Inv.synced (h : Inv st) (hstage : st.stage = .synced) :
    ∃ o taken, Between o (some st.serverIdentifier) st taken := by
  cases h.phase with
  | between _ _ hother _ =>
    rw [hstage] at hother
    rcases hother with hc | hc
    all_goals cases hc
  | synced o taken _ h => exact ⟨o,taken,h⟩
  | uploading _ hother _ =>
    rw [hstage] at hother
    cases hother

-- the steps that leave the client where it stands
structure Steady (st st' : UploadSession) : Prop where
  stage : st'.stage = st.stage
  serverIdentifier : st'.serverIdentifier = st.serverIdentifier
  finished : st'.finished = st.finished
  saves : st'.saves = st.saves

theorem Inv.steady (h : Inv st) (hsteady : Steady st st')
    (hbetween : ∀ o voice taken, Between o voice st taken →
      ∃ voice' taken', Between o voice' st' taken' ∧ (voice = none ∨ voice' = voice))
    (huploads : ∀ q, st.stage = .uploading q → Uploads q st → Uploads q st') : Inv st' := by
  refine ⟨?_,?_⟩
  · cases h.phase with
    | between voice taken hstage h =>
      obtain ⟨voice',taken',h',_⟩ := hbetween _ _ _ h
      exact .between voice' taken' (hsteady.stage ▸ hstage) (hsteady.serverIdentifier ▸ h')
    | synced o taken hstage h =>
      obtain ⟨voice',taken',h',hvoice⟩ := hbetween _ _ _ h
      obtain rfl : voice' = some st.serverIdentifier := hvoice.resolve_left fun hc => by cases hc
      exact .synced o taken' (hsteady.stage.trans hstage) (hsteady.serverIdentifier ▸ h')
    | uploading q hstage h => exact .uploading q (hsteady.stage.trans hstage) (huploads q hstage h)
  · rw [hsteady.saves,hsteady.finished]
    exact h.saves

theorem Inv.evolves {admits : Peer → UploadParcel → Prop} (h : Inv st)
    (hl : st.upload.path.Evolves UploadParcel.mark admits path)
    (hadm : ∀ q, st.stage = .uploading q → ∀ p, admits .two p → ¬Late p) : Inv (st.via path) :=
  h.steady ⟨rfl,rfl,rfl,rfl⟩
    (fun _ voice taken hbetween => ⟨voice,taken,hbetween.evolves hl,.inr rfl⟩)
    fun q hstage huploads => huploads.evolves hl (hadm q hstage)

theorem Inv.uploads (h : Inv st) {f : UploadRequest → Option RoutedUpload}
    (hf : ∀ q upload, Uploads q st → f q = some upload → Uploads q { st with upload := upload })
    (hs : st.uploads f = some st') : Inv st' := by
  obtain ⟨q,upload,hstage,hupload,rfl⟩ := uploads_spec hs
  exact ⟨.uploading q hstage (hf q upload (h.uploading hstage) hupload),h.saves⟩

theorem steady_other {source : Peer} {msg : Msg} (hs : st.other source msg = some st') :
    Steady st st' := by
  unfold UploadSession.other at hs
  split_ifs at hs
  exact Option.some.inj hs ▸ ⟨rfl,rfl,rfl,rfl⟩

theorem steady_serve (hs : st.serve drawn disk = some st') : Steady st st' := by
  obtain ⟨p,path,_,hturn⟩ := serve_spec hs
  cases hturn with
  | other | dropped | ran => exact ⟨rfl,rfl,rfl,rfl⟩

theorem Inv.step (h : Inv st) {e : Event} (hadm : Admitted st e)
    (hs : system.step st e = some st') : Inv st' := by
  cases e with
  | showMenu =>
    obtain ⟨hstage,rfl⟩ := showMenu_spec hs
    obtain ⟨voice,taken,hbetween⟩ := h.between (.inl hstage)
    exact ⟨hbetween.showMenu,h.saves⟩
  | handshake =>
    obtain ⟨hstage,rfl⟩ := handshake_spec hs
    obtain ⟨voice,taken,hbetween⟩ := h.between (.inr hstage)
    exact ⟨.between voice taken (.inr hstage) hbetween.handshake,h.saves⟩
  | read =>
    obtain ⟨hstage,p,path,htake,hread⟩ := read_spec hs
    obtain ⟨voice,taken,hbetween⟩ := h.between (.inr hstage)
    refine ⟨hbetween.read hstage htake hread,?_⟩
    cases hread with
    | skipped he | answered _ _ _ he => exact he ▸ h.saves
  | performUpload filename contents =>
    obtain ⟨hstage,seed,rfl⟩ := performUpload_spec hs
    obtain ⟨o,taken,hbetween⟩ := h.synced hstage
    exact ⟨hbetween.performUpload hadm.1 hadm.2 seed,h.saves⟩
  | request => exact h.uploads (fun _ _ huploads hf => huploads.request hf) hs
  | attempt k fails => exact h.uploads (fun _ _ huploads hf => huploads.attempt hf) hs
  | receive => exact h.uploads (fun _ _ huploads hf => huploads.receive hf) hs
  | returned =>
    obtain ⟨q,m,hstage,hphase,rfl⟩ := returned_spec hs
    obtain ⟨hmenu,hsaved⟩ := (h.uploading hstage).returned hphase
    refine ⟨hmenu,?_⟩
    change st.saves ++ st.upload.saves = (st.finished ++ [q]).map file
    rw [h.saves,hsaved,List.map_append]
    rfl
  | other source msg =>
    exact h.steady (steady_other hs)
      (fun _ voice taken hbetween => ⟨voice,taken,hbetween.other hs,.inr rfl⟩)
      fun _ _ huploads => huploads.other hs
  | route source isDelayed isDamage =>
    obtain ⟨path,hp,rfl⟩ := Option.map_eq_some_iff.mp hs
    have hl : Path.Evolves UploadParcel.mark (fun origin p =>
        (∃ q, st.stage = .uploading q) → origin = .two → ¬Late p) st.upload.path path :=
      Path.evolves_route hp fun ack rest hup hbuf hdel hstage hpeer => by
        obtain ⟨q,hstage⟩ := hstage
        simp [hadm q hstage hpeer hbuf hdel ack rest hup]
    exact h.evolves hl fun q hstage p hp => hp ⟨q,hstage⟩ rfl
  | idle =>
    obtain rfl := Option.some.inj hs
    exact h.evolves (Path.evolves_idle UploadParcel.mark (fun _ p => ¬Late p) st.upload.path)
      fun _ _ _ hp => hp
  | serve drawn disk =>
    exact h.steady (steady_serve hs) (fun _ _ _ hbetween => hbetween.serve hs)
      fun _ _ huploads => huploads.serve hs

theorem inv_reachable (h : system.ReachableUnder Admitted st) : Inv st :=
  system.reachableUnder_invariant (fun _ hinit => inv_init hinit)
    (fun _ _ _ hi hadm hs => hi.step hadm hs) h

-- what the server has been told to save, over all the threads that this client has had
def allSaves (st : UploadSession) : List (List UInt8 × Payload) := st.saves ++ st.upload.saves

theorem Inv.idle_saves (h : Inv st) (hidle : ∀ q, st.stage ≠ .uploading q) :
    st.upload.saves = [] := by
  cases h.phase with
  | between _ _ _ h => exact h.saves
  | synced _ _ _ h => exact h.saves
  | uploading q hstage _ => exact absurd hstage (hidle q)

theorem Inv.allSaves (h : Inv st) : st.allSaves = st.finished.map file ∨
    ∃ q, st.stage = .uploading q ∧ st.allSaves = (st.finished ++ [q]).map file := by
  rw [UploadSession.allSaves,h.saves]
  by_cases hidle : ∀ q, st.stage ≠ .uploading q
  · left
    rw [h.idle_saves hidle,List.append_nil]
  · simp only [ne_eq,not_forall,not_not] at hidle
    obtain ⟨q,hstage⟩ := hidle
    have huploads := h.uploading hstage
    obtain ⟨taken,acked,hexact⟩ := huploads.exact
    rcases hexact.inv.saved_once huploads.fits with hnone | hsaved
    · left
      rw [hnone,List.append_nil]
    · refine .inr ⟨q,hstage,?_⟩
      rw [hsaved,List.map_append]
      rfl

theorem uploads_saved_in_order (h : system.ReachableUnder Admitted st) :
    (st.allSaves = st.finished.map file ∨
      ∃ q, st.stage = .uploading q ∧ st.allSaves = (st.finished ++ [q]).map file) ∧
    ∀ q m, st.stage = .uploading q → st.upload.phase = .uploaded m →
      st.allSaves = (st.finished ++ [q]).map file ∧
      st.upload.server.currentState = .waitingForRequest ∧ st.upload.server.sequenceNumber = m := by
  have hinv := inv_reachable h
  refine ⟨hinv.allSaves,fun q m hstage hphase => ?_⟩
  have huploads := hinv.uploading hstage
  obtain ⟨taken,acked,hexact⟩ := huploads.exact
  have hreturned := hexact.returned huploads.nonempty hphase
  refine ⟨?_,hreturned.saved.state,hreturned.saved.number.trans hreturned.number.symm⟩
  rw [allSaves,hinv.saves,(huploads.returned hphase).2,List.map_append]
  rfl

def newSession : UploadSession where
  clientId := 9
  serverIdentifier := nullServerId
  syncCount := 0
  sequenceNumber := 0
  stage := .menu
  tables := FtpServer.create true
  upload := ⟨.requesting,Sender.create nullServerId 9,0,ServerThread.create 0,Path.start,[]⟩
  finished := []
  saves := []

theorem init_newSession : Init newSession := by
  refine ⟨rfl,rfl,rfl,rfl,?_,?_,rfl,rfl,rfl⟩
  · intro peer p hp
    cases peer <;> cases hp
  · intro peer p hp
    cases peer <;> cases hp

def exchange (drawn : ℤ) : List Event :=
  [.route .one false false,.serve drawn .empty,.route .two false false]

def oneByteUpload (filename contents : List UInt8) (thread : ℕ) : List Event :=
  [.performUpload filename contents,.request] ++ exchange 0 ++ [.receive,.attempt thread false] ++
    exchange 0 ++ [.receive,.attempt (thread + 1) false] ++ exchange 0 ++ [.receive]

-- in the second `syncServer` a copy of the HANDSHAKE is overtaken by the next one, and both are
-- served: the first replaces thread 5 by thread 3, which answers the other
def twoFiles : List Event :=
  [.showMenu,.handshake] ++ exchange 5 ++ [.read] ++ oneByteUpload [97] [65] 0 ++
    [.returned,.showMenu,.handshake,.handshake,.route .one true false,.route .one false false,
      .serve 3 .empty,.serve 0 .empty,.route .two false false,.read] ++
    oneByteUpload [98] [66] 2

def currentFile (st : UploadSession) : Option (List UInt8 × Payload) :=
  match st.stage with
  | .uploading q => some (file q)
  | _ => none

theorem uploads_saved_in_order_two_files : ∃ st, system.ReachableUnder Admitted st ∧
    st.serverIdentifier = 3 ∧ st.upload.phase = .uploaded 1 ∧
    st.allSaves = [([97],⟨1,[65]⟩),([98],⟨1,[66]⟩)] := by
  have hrun : (system.run newSession twoFiles).any (fun st =>
      decide (st.serverIdentifier = 3) && decide (st.upload.phase = .uploaded 1) &&
      decide (st.currentFile = some ([98],⟨1,[66]⟩)) &&
      decide (st.finished.map file = [([97],⟨1,[65]⟩)])) = true := by decide +kernel
  obtain ⟨st,hst,hfinal⟩ := (Option.any_eq_true _ _).mp hrun
  simp only [Bool.and_eq_true,decide_eq_true_eq] at hfinal
  obtain ⟨⟨⟨hserver,hphase⟩,hcurrent⟩,hfinished⟩ := hfinal
  have hadmitted : ∀ e ∈ twoFiles, ∀ st, Admitted st e := by
    simp [twoFiles,oneByteUpload,exchange,Admitted,RoutedUpload.HeldOnce,bufferLength]
  have hr := system.reachableUnder_of_run init_newSession
    (system.along_of_forall (fun e he st _ => hadmitted e he st) _) hst
  refine ⟨st,hr,hserver,hphase,?_⟩
  unfold currentFile at hcurrent
  split at hcurrent
  · rename_i q hstage
    rw [((uploads_saved_in_order hr).2 q 1 hstage hphase).1,List.map_append,hfinished,
      List.map_singleton,Option.some.inj hcurrent]
    rfl
  · cases hcurrent

end UploadSession
end FtpOverUdp
