import FtpOverUdp.UdpClient.RoutedUploadOutcome
import FtpOverUdp.Session.UploadSession

namespace FtpOverUdp

open Library

namespace FtpServer

variable {st st' : FtpServer} {msg : Msg} {drawn S T : ℤ} {t : Turn}

-- no new thread for what the current one is to hear
theorem turn_heard (hid : st.clientIds msg.clientId = some T)
    (hmsg : msg.serverId = nullServerId ∧ T ≠ nullServerId ∨
      msg.type ≠ .handshake ∧ msg.serverId = T ∨
      msg.type = .handshake ∧ msg.serverId ≠ T ∧ st.pastServerIds msg.clientId = some msg.serverId)
    (hs : st.turn ⟨msg,drawn⟩ = some (st',t)) :
    st' = st ∧ t = ⟨msg.clientId,none,none,T⟩ := by
  have hnot : ¬(msg.type = .handshake ∧ msg.serverId = T) := by
    rintro ⟨htype,hserver⟩
    rcases hmsg with ⟨hnull,hne⟩ | ⟨hno,_⟩ | ⟨_,hne,_⟩
    · exact hne (hserver.symm.trans hnull)
    · exact hno htype
    · exact hne hserver
  have hresolve : st.resolveId msg (st.requestedId T msg) = T := by
    rw [resolveId,hid]
    refine if_pos ?_
    rw [requestedId]
    split_ifs with hpast
    · exact .inr rfl
    · rcases hmsg with ⟨hnull,_⟩ | ⟨_,hserver⟩ | hre
      · exact .inl hnull
      · exact .inr hserver
      · exact absurd hre hpast
  unfold turn at hs
  rw [hid] at hs
  dsimp only at hs
  rw [if_neg hnot,hresolve] at hs
  obtain ⟨rfl,rfl⟩ := Prod.mk.inj (Option.some.inj hs)
  exact ⟨rfl,rfl⟩

-- the first message of a client, or the handshake that replaces its thread
structure Opens (msg : Msg) (drawn : ℤ) (st st' : FtpServer) (t : Turn) : Prop where
  created : t.created = some drawn
  named : drawn ≠ nullServerId
  ids : st'.clientIds msg.clientId = some drawn
  past : ∀ S, st.clientIds msg.clientId = some S → st'.pastServerIds msg.clientId = some S
  target : t.target = if msg.serverId = nullServerId ∨ msg.serverId = drawn then drawn
    else nullServerId
  redrawn : st.clientIds msg.clientId = some drawn → st'.isThreadActive drawn = some false

theorem turn_opens (hid : st.clientIds msg.clientId = none ∨
      msg.type = .handshake ∧ st.clientIds msg.clientId = some msg.serverId)
    (hs : st.turn ⟨msg,drawn⟩ = some (st',t)) : Opens msg drawn st st' t := by
  unfold turn at hs
  rcases hid with hid | ⟨htype,hid⟩
  · rw [hid] at hs
    obtain ⟨s,hr,he⟩ := Option.map_eq_some_iff.mp hs
    obtain ⟨rfl,rfl⟩ := Prod.mk.inj he
    have hj := joins_registerClient hr hid
    have hlo : 0 ≤ drawn := hj.lower
    have hids : s.clientIds msg.clientId = some drawn := by rw [hj.ids,if_pos rfl]
    refine ⟨rfl,?_,hids,fun S hS => ?_,?_,fun hS => ?_⟩
    · simp only [nullServerId]
      omega
    · rw [hid] at hS
      cases hS
    · simp only [resolveId,hids]
    · rw [hid] at hS
      cases hS
  · rw [hid] at hs
    dsimp only at hs
    rw [if_pos ⟨htype,rfl⟩] at hs
    obtain ⟨s,hr,he⟩ := Option.map_eq_some_iff.mp hs
    obtain ⟨rfl,rfl⟩ := Prod.mk.inj he
    have hre := restartSession_respawned hr
    have hlo : 0 ≤ drawn := hre.lower
    have hids : s.clientIds msg.clientId = some drawn := by rw [hre.ids,Table.assign_self]
    refine ⟨rfl,?_,hids,fun S hS => ?_,?_,fun hS => ?_⟩
    · simp only [nullServerId]
      omega
    · rw [hre.past,Table.assign_self]
      exact congrArg some (Option.some.inj (hid.symm.trans hS))
    · simp only [resolveId,hids]
    · rw [Option.some.inj (hid.symm.trans hS)] at hre
      exact hre.redrawn

end FtpServer

namespace UploadSession

open RoutedUpload (Late Exact Told Answered HeldOnce)
open ServerThread (Ready Named started)

-- nothing older follows a HANDSHAKE of this `syncServer`
def Greets (a b : Origin) : Prop := a = .handshake → b ≠ .past

-- `o` is the id that this `syncServer` asks the server to retire
def Asked (c o : ℤ) (p : UploadParcel) : Prop :=
  match p.origin with
  | .handshake => p.msg.type = .handshake ∧ p.msg.serverId = o
  | .past => (p.msg.type = .resp ∨ p.msg.type = .respErr) ∧ p.msg.serverId = nullServerId
  | .other => p.msg.clientId ≠ c
  | .request | .packet _ => False

-- `voice` is the id of the thread that has taken over, once it has answered
def Voiced (c o : ℤ) (voice : Option ℤ) (p : UploadParcel) : Prop :=
  if p.origin = .other then p.msg.clientId ≠ c
  else p.msg.serverId = o ∨ some p.msg.serverId = voice ∧ p.msg.type = .handshake

structure Replaced (o n : ℤ) (st : UploadSession) : Prop where
  id : st.tables.clientIds st.clientId = some n
  named : n ≠ nullServerId
  fresh : n ≠ o
  past : o = nullServerId ∨ st.tables.pastServerIds st.clientId = some o

-- how far the server is with the client's HANDSHAKE
inductive Meets (o : ℤ) (st : UploadSession) (taken : List UploadParcel) : Option ℤ → Prop
  | unknown (ho : o = nullServerId) (hid : st.tables.clientIds st.clientId = none)
      (hclean : (st.upload.path.line .one []).All fun p => p.origin ≠ .past) :
      Meets o st taken none
  | known (ho : o ≠ nullServerId) (hid : st.tables.clientIds st.clientId = some o)
      (hready : Ready st.upload.server o) : Meets o st taken none
  | starting (n : ℤ) (ho : o ≠ nullServerId) (hnew : Replaced o n st)
      (hserver : st.upload.server = started n) (htaken : ∃ x ∈ taken, x.origin = .handshake) :
      Meets o st taken none
  | greeted (n : ℤ) (hnew : Replaced o n st) (hready : Ready st.upload.server n)
      (hclean : (st.upload.path.line .one []).All fun p => p.origin ≠ .past) :
      Meets o st taken (some n)

structure Between (o : ℤ) (voice : Option ℤ) (st : UploadSession) (taken : List UploadParcel) :
    Prop where
  serverId : st.upload.sender.serverId = nullServerId
  clientId : st.upload.sender.clientId = st.clientId
  acked : ∀ t ∈ st.upload.sender.threads, t.isAcked = true
  saves : st.upload.saves = []
  sent : (st.upload.path.line .one taken).Ordered UploadParcel.origin Greets Late
  asked : (st.upload.path.line .one taken).All (Asked st.clientId o)
  voiced : (st.upload.path.line .two []).All (Voiced st.clientId o voice)
  held : ∀ p ∈ (st.upload.path.line .two []).held, p.delayed = true
  meets : Meets o st taken voice

variable {st st' : UploadSession} {o n : ℤ} {voice : Option ℤ} {taken taken' : List UploadParcel}
  {p : UploadParcel} {path : Path UploadParcel} {disk : Disk} {drawn : ℤ}

theorem Replaced.same (h : Replaced o n st) (hclient : st'.clientId = st.clientId)
    (hkept : FtpServer.Undisturbed st.clientId st.tables st'.tables) : Replaced o n st' := by
  constructor
  · rw [hclient,hkept.ids]
    exact h.id
  · exact h.named
  · exact h.fresh
  · rw [hclient,hkept.past]
    exact h.past

theorem Meets.same (h : Meets o st taken voice) (hclient : st'.clientId = st.clientId)
    (hkept : FtpServer.Undisturbed st.clientId st.tables st'.tables)
    (hserver : st'.upload.server = st.upload.server)
    (hclean : ((st.upload.path.line .one []).All fun p => p.origin ≠ .past) →
      (st'.upload.path.line .one []).All fun p => p.origin ≠ .past)
    (htaken : ∀ x ∈ taken, x ∈ taken') : Meets o st' taken' voice := by
  have hid : st'.tables.clientIds st'.clientId = st.tables.clientIds st.clientId := by
    rw [hclient,hkept.ids]
  cases h with
  | unknown ho hnone hc => exact .unknown ho (hid.trans hnone) (hclean hc)
  | known ho hsome hready => exact .known ho (hid.trans hsome) (hserver ▸ hready)
  | starting n ho hnew hstarted hx =>
    obtain ⟨x,hx,horigin⟩ := hx
    exact .starting n ho (hnew.same hclient hkept) (hserver.trans hstarted) ⟨x,htaken x hx,horigin⟩
  | greeted n hnew hready hc =>
    exact .greeted n (hnew.same hclient hkept) (hserver ▸ hready) (hclean hc)

theorem undisturbed_rfl (c : ℤ) (tables : FtpServer) : FtpServer.Undisturbed c tables tables :=
  ⟨rfl,rfl,rfl⟩

theorem Between.evolves {admits : Peer → UploadParcel → Prop} (h : Between o voice st taken)
    (hl : st.upload.path.Evolves UploadParcel.mark admits path) :
    Between o voice (st.via path) taken := by
  refine ⟨h.serverId,h.clientId,h.acked,h.saves,?_,hl.all (fun _ hp => hp) h.asked,
    hl.all (fun _ hp => hp) h.voiced,hl.held (fun _ => rfl) h.held,?_⟩
  · rcases hl .one taken with he | hstep
    · exact he ▸ h.sent
    · refine h.sent.step ?_ ?_ hstep
      all_goals exact fun _ => rfl
  · exact h.meets.same rfl (undisturbed_rfl _ _) rfl (hl.all fun _ hp => hp) fun _ hx => hx

-- what the client sends, or another one
theorem Between.pushed (h : Between o voice st taken) {new : UploadParcel}
    (hnew : new.origin ≠ .past) (hasked : Asked st.clientId o new) :
    Between o voice (st.via (st.upload.path.send .one new)) taken := by
  have htwo : (st.upload.path.send .one new).line .two [] = st.upload.path.line .two [] :=
    Path.line_send_other _ _ _ (by decide)
  refine ⟨h.serverId,h.clientId,h.acked,h.saves,?_,?_,htwo ▸ h.voiced,htwo ▸ h.held,?_⟩
  · change ((st.upload.path.send .one new).line .one taken).Ordered _ _ _
    rw [Path.line_send_self]
    exact h.sent.push fun _ _ _ => hnew
  · change ((st.upload.path.send .one new).line .one taken).All _
    rw [Path.line_send_self]
    exact h.asked.push hasked
  · refine h.meets.same rfl (undisturbed_rfl _ _) rfl (fun hclean => ?_) fun _ hx => hx
    change ((st.upload.path.send .one new).line .one []).All _
    rw [Path.line_send_self]
    exact hclean.push hnew

theorem handshake_spec (hs : st.handshake = some st') : st.stage = .syncing ∧
    st' = st.via (st.upload.path.send .one ⟨st.handshakeMsg,.handshake,false⟩) := by
  unfold UploadSession.handshake at hs
  split at hs
  · rename_i hstage
    exact ⟨hstage,(Option.some.inj hs).symm⟩
  · cases hs

theorem Between.handshake (h : Between st.serverIdentifier voice st taken) :
    Between st.serverIdentifier voice
      (st.via (st.upload.path.send .one ⟨st.handshakeMsg,.handshake,false⟩)) taken :=
  h.pushed (fun hc => by cases hc) ⟨rfl,rfl⟩

theorem Between.other (h : Between o voice st taken) {source : Peer} {msg : Msg}
    (hs : st.other source msg = some st') : Between o voice st' taken := by
  unfold UploadSession.other at hs
  split_ifs at hs with hother
  obtain rfl := Option.some.inj hs
  cases source with
  | one => exact h.pushed (fun hc => by cases hc) hother
  | two =>
    have hone : ∀ l, (st.upload.path.send .two ⟨msg,.other,false⟩).line .one l =
        st.upload.path.line .one l := fun _ => Path.line_send_other _ _ _ (by decide)
    refine ⟨h.serverId,h.clientId,h.acked,h.saves,hone taken ▸ h.sent,hone taken ▸ h.asked,?_,?_,?_⟩
    · change ((st.upload.path.send .two ⟨msg,.other,false⟩).line .two []).All _
      rw [Path.line_send_self]
      exact h.voiced.push (by rw [Voiced,if_pos rfl]; exact hother)
    · change ∀ p ∈ ((st.upload.path.send .two ⟨msg,.other,false⟩).line .two []).held, _
      rw [Path.line_send_self]
      exact h.held
    · exact h.meets.same rfl (undisturbed_rfl _ _) rfl (fun hc => hone [] ▸ hc) fun _ hx => hx

-- the client takes a message
theorem Between.took (h : Between o voice st taken)
    (htake : st.upload.path.take .one = some (p,path)) :
    Between o voice (st.via path) taken ∧ Voiced st.clientId o voice p := by
  have hone : ∀ l, path.line .one l = st.upload.path.line .one l :=
    fun _ => Path.line_take_other htake
  have hself : path.line .two ([] ++ [p]) = st.upload.path.line .two [] :=
    Path.line_take_self htake
  have hheld : (path.line .two []).held = (st.upload.path.line .two []).held := by
    rw [← hself]
    rfl
  obtain ⟨hp,hvoiced⟩ := Path.all_take .two htake h.voiced
  refine ⟨⟨h.serverId,h.clientId,h.acked,h.saves,hone taken ▸ h.sent,hone taken ▸ h.asked,
    hvoiced,fun a ha => h.held a (hheld ▸ ha),?_⟩,hp⟩
  exact h.meets.same rfl (undisturbed_rfl _ _) rfl (fun hc => hone [] ▸ hc) fun _ hx => hx

-- one turn of the dispatcher, with the thread that it hands the message to
inductive Turned (st : UploadSession) (drawn : ℤ) (disk : Disk) (p : UploadParcel)
    (path : Path UploadParcel) : UploadSession → Prop
  | other (tables : FtpServer) (hother : p.msg.clientId ≠ st.clientId)
      (hkept : FtpServer.Undisturbed st.clientId st.tables tables) :
      Turned st drawn disk p path { st.via path with tables := tables }
  | dropped (tables : FtpServer) (t : FtpServer.Turn) (hown : p.msg.clientId = st.clientId)
      (hturn : st.tables.turn ⟨p.msg,drawn⟩ = some (tables,t)) (htarget : t.target = nullServerId) :
      Turned st drawn disk p path { st with
        tables := tables.dispatchMessage t.target p.msg
        upload := { st.upload with
          server := (t.created.map started).getD st.upload.server
          path := path } }
  | ran (tables : FtpServer) (t : FtpServer.Turn) (r : ServerThread.Outcome)
      (hown : p.msg.clientId = st.clientId)
      (hturn : st.tables.turn ⟨p.msg,drawn⟩ = some (tables,t)) (htarget : t.target ≠ nullServerId)
      (hactive : tables.isThreadActive t.target = some true)
      (hrun : ((t.created.map started).getD st.upload.server).run p.msg disk = some r) :
      Turned st drawn disk p path { st with
        tables := tables.dispatchMessage t.target p.msg
        upload := { st.upload with
          server := r.1
          path := RoutedUpload.replies p path r.2
          saves := st.upload.saves ++ RoutedUpload.saved r.2 } }

theorem serve_spec (hs : st.serve drawn disk = some st') : ∃ p path,
    st.upload.path.take .two = some (p,path) ∧ Turned st drawn disk p path st' := by
  obtain ⟨⟨p,path⟩,htake,hs⟩ := Option.bind_eq_some_iff.mp hs
  refine ⟨p,path,htake,?_⟩
  obtain ⟨⟨tables,t⟩,hturn,hs⟩ := Option.bind_eq_some_iff.mp hs
  dsimp only at hs
  split_ifs at hs with hother htarget hactive
  · exact Option.some.inj hs ▸ .other _ hother (FtpServer.turn_other hturn hother)
  · exact Option.some.inj hs ▸ .dropped tables t (not_ne_iff.mp hother) hturn htarget
  · obtain ⟨r,hrun,rfl⟩ := Option.map_eq_some_iff.mp hs
    exact .ran tables t r (not_ne_iff.mp hother) hturn htarget hactive hrun

-- a turn leaves the client alone
theorem Between.served (h : Between o voice st taken)
    (htake : st.upload.path.take .two = some (p,path)) {tables : FtpServer}
    {server : ServerThread} {path' : Path UploadParcel} {voice' : Option ℤ}
    (hvoice : voice = none ∨ voice' = voice)
    (hreplied : path' = path ∨ ∃ reply, path' = path.send .two ⟨reply,p.origin,p.delayed⟩ ∧
      Voiced st.clientId o voice' ⟨reply,p.origin,p.delayed⟩)
    (hmeets : Meets o { st with
      tables := tables
      upload := { st.upload with
        server := server
        path := path } } (taken ++ [p]) voice') : Between o voice' { st with
      tables := tables
      upload := { st.upload with
        server := server
        path := path' } } (taken ++ [p]) := by
  have hself : path.line .one (taken ++ [p]) = st.upload.path.line .one taken :=
    Path.line_take_self htake
  have hother : path.line .two [] = st.upload.path.line .two [] := Path.line_take_other htake
  have hone : ∀ l, path'.line .one l = path.line .one l := by
    rcases hreplied with rfl | ⟨reply,rfl,_⟩
    · exact fun _ => rfl
    · exact fun _ => Path.line_send_other _ _ _ (by decide)
  have hvoiced : (path.line .two []).All (Voiced st.clientId o voice') := by
    rw [hother]
    intro a ha
    have hold := h.voiced a ha
    unfold Voiced at hold ⊢
    split_ifs at hold ⊢ with horigin
    · exact hold
    · rcases hvoice with rfl | rfl
      · exact hold.imp_right fun hc => by cases hc.1
      · exact hold
  refine ⟨h.serverId,h.clientId,h.acked,h.saves,(hone _).trans hself ▸ h.sent,
    (hone _).trans hself ▸ h.asked,?_,?_,?_⟩
  · rcases hreplied with rfl | ⟨reply,rfl,hreply⟩
    · exact hvoiced
    · change ((path.send .two ⟨reply,p.origin,p.delayed⟩).line .two []).All _
      rw [Path.line_send_self]
      exact hvoiced.push hreply
  · have hheld : ∀ a ∈ (path.line .two []).held, a.delayed = true := hother ▸ h.held
    rcases hreplied with rfl | ⟨reply,rfl,_⟩
    · exact hheld
    · change ∀ a ∈ ((path.send .two ⟨reply,p.origin,p.delayed⟩).line .two []).held, _
      rw [Path.line_send_self]
      exact hheld
  · exact hmeets.same rfl (undisturbed_rfl _ _) rfl (fun hc => (hone []).symm ▸ hc) fun _ hx => hx

-- what the dispatcher takes for this client before an upload
theorem Between.own (h : Between o voice st taken)
    (htake : st.upload.path.take .two = some (p,path)) (hown : p.msg.clientId = st.clientId) :
    p.origin = .handshake ∧ p.msg.type = .handshake ∧ p.msg.serverId = o ∨
      p.origin = .past ∧ (p.msg.type = .resp ∨ p.msg.type = .respErr) ∧
        p.msg.serverId = nullServerId := by
  have hself : path.line .one (taken ++ [p]) = st.upload.path.line .one taken :=
    Path.line_take_self htake
  have hin : p ∈ (st.upload.path.line .one taken).passed := by
    rw [← hself]
    simp [Path.line]
  have hasked := h.asked p (List.mem_append_left _ hin)
  cases horigin : p.origin with
  | handshake =>
    simp only [Asked,horigin] at hasked
    exact .inl ⟨rfl,hasked⟩
  | past =>
    simp only [Asked,horigin] at hasked
    exact .inr ⟨rfl,hasked⟩
  | other =>
    simp only [Asked,horigin] at hasked
    exact absurd hown hasked
  | request | packet => simp only [Asked,horigin] at hasked

-- a HANDSHAKE of this `syncServer` and the message after it have been taken
theorem Between.clean (h : Between o voice st taken)
    (htake : st.upload.path.take .two = some (p,path)) (hx : ∃ x ∈ taken, x.origin = .handshake) :
    (path.line .one []).All fun p => p.origin ≠ .past := by
  obtain ⟨x,hx,horigin⟩ := hx
  have hself : path.line .one (taken ++ [p]) = st.upload.path.line .one taken :=
    Path.line_take_self htake
  have hsent := hself ▸ h.sent
  have hpassed : (path.line .one (taken ++ [p])).passed = taken ++ p :: path.down .two :=
    List.append_assoc ..
  intro z hz hpast
  exact hsent.blocked hpassed hx (fun hgreets => hgreets horigin hpast) hz

-- the tables after a turn that starts a thread, or hands the message to the one there is
theorem opens_replaced {t : FtpServer.Turn} {tables : FtpServer} (hown : p.msg.clientId = st.clientId)
    (h : FtpServer.Opens p.msg drawn st.tables tables t) (hne : drawn ≠ o)
    (hpast : o = nullServerId ∨ st.tables.clientIds st.clientId = some o) :
    Replaced o drawn { st with tables := tables.dispatchMessage t.target p.msg } := by
  have hids := h.ids
  rw [hown] at hids
  constructor
  · change (tables.dispatchMessage t.target p.msg).clientIds st.clientId = _
    rw [(FtpServer.dispatchMessage_tables tables t.target p.msg).1]
    exact hids
  · exact h.named
  · exact hne
  · refine hpast.imp_right fun hid => ?_
    change (tables.dispatchMessage t.target p.msg).pastServerIds st.clientId = _
    rw [FtpServer.dispatchMessage_pastServerIds,← hown]
    exact h.past o (hown ▸ hid)

theorem Between.replied (h : Between o voice st taken)
    (htake : st.upload.path.take .two = some (p,path)) {tables : FtpServer}
    {r : ServerThread.Outcome} {reply : Msg} {voice' : Option ℤ} (hr : r.2 = [.send reply])
    (hvoice : voice = none ∨ voice' = voice) (hnot : p.origin ≠ .other)
    (hvoiced : reply.serverId = o ∨ some reply.serverId = voice' ∧ reply.type = .handshake)
    (hmeets : Meets o { st with
      tables := tables
      upload := { st.upload with
        server := r.1
        path := path } } (taken ++ [p]) voice') : Between o voice' { st with
      tables := tables
      upload := { st.upload with
        server := r.1
        path := RoutedUpload.replies p path r.2
        saves := st.upload.saves ++ RoutedUpload.saved r.2 } } (taken ++ [p]) := by
  have hsaves : st.upload.saves ++ RoutedUpload.saved r.2 = st.upload.saves := by
    rw [hr]
    exact List.append_nil _
  rw [hsaves,hr]
  refine h.served htake hvoice (.inr ⟨reply,rfl,?_⟩) hmeets
  rw [Voiced,if_neg hnot]
  exact hvoiced

-- the thread that has taken over answers
theorem Between.greets (h : Between o voice st taken)
    (htake : st.upload.path.take .two = some (p,path)) (hnot : p.origin ≠ .other)
    {tables : FtpServer} {server : ServerThread} {r : ServerThread.Outcome}
    (hnew : Replaced o n { st with tables := tables })
    (hthread : server = started n ∨ Ready server n ∧ p.msg.type = .handshake)
    (hvoice : voice = none ∨ some n = voice)
    (hclean : (path.line .one []).All fun p => p.origin ≠ .past)
    (hrun : server.run p.msg disk = some r) : Between o (some n) { st with
      tables := tables
      upload := { st.upload with
        server := r.1
        path := RoutedUpload.replies p path r.2
        saves := st.upload.saves ++ RoutedUpload.saved r.2 } } (taken ++ [p]) := by
  obtain ⟨hready,reply,hr,htype,hid⟩ := ServerThread.run_greets hthread hrun
  refine h.replied htake hr hvoice hnot (.inr ⟨congrArg some hid,htype⟩) ?_
  exact .greeted n ⟨hnew.id,hnew.named,hnew.fresh,hnew.past⟩ hready hclean

-- the thread that the client knows answers
theorem Between.echoes (h : Between o none st taken)
    (htake : st.upload.path.take .two = some (p,path)) (hnot : p.origin ≠ .other)
    {tables : FtpServer} {r : ServerThread.Outcome} {reply : Msg} (hr : r.2 = [.send reply])
    (hreply : reply.serverId = o) (ho : o ≠ nullServerId)
    (hid : tables.clientIds st.clientId = some o) (hready : Ready r.1 o) :
    Between o none { st with
      tables := tables
      upload := { st.upload with
        server := r.1
        path := RoutedUpload.replies p path r.2
        saves := st.upload.saves ++ RoutedUpload.saved r.2 } } (taken ++ [p]) :=
  h.replied htake hr (.inl rfl) hnot (.inl hreply) (.known ho hid hready)

-- the first message of the client starts its thread, which answers at once
theorem Between.serve_unknown (h : Between o none st taken)
    (htake : st.upload.path.take .two = some (p,path)) (hown : p.msg.clientId = st.clientId)
    (hturn : Turned st drawn disk p path st') (ho : o = nullServerId)
    (hid : st.tables.clientIds st.clientId = none)
    (hclean : (st.upload.path.line .one []).All fun p => p.origin ≠ .past) :
    Between o (some drawn) st' (taken ++ [p]) := by
  obtain ⟨hp,hrest⟩ := Path.all_take .one htake hclean
  obtain ⟨horigin,_,hserver⟩ : p.origin = .handshake ∧ _ := by
    rcases h.own htake hown with hh | ⟨hpast,_⟩
    · exact hh
    · exact absurd hpast hp
  cases hturn with
  | other _ hother => exact absurd hown hother
  | dropped tables t _ hs htarget =>
    have hopens := FtpServer.turn_opens (.inl (hown ▸ hid)) hs
    rw [hopens.target,if_pos (.inl (hserver.trans ho))] at htarget
    exact absurd htarget hopens.named
  | ran tables t r _ hs _ _ hrun =>
    have hopens := FtpServer.turn_opens (.inl (hown ▸ hid)) hs
    have hnew : Replaced o drawn { st with tables := tables.dispatchMessage t.target p.msg } :=
      opens_replaced hown hopens (ho ▸ hopens.named) (.inl ho)
    rw [hopens.created] at hrun
    exact h.greets htake (by rw [horigin]; decide) hnew (.inl rfl) (.inl rfl) hrest hrun

theorem Between.serve_known (h : Between o none st taken)
    (htake : st.upload.path.take .two = some (p,path)) (hown : p.msg.clientId = st.clientId)
    (hturn : Turned st drawn disk p path st') (ho : o ≠ nullServerId)
    (hid : st.tables.clientIds st.clientId = some o) (hready : Ready st.upload.server o) :
    Between o none st' (taken ++ [p]) := by
  rcases h.own htake hown with ⟨horigin,htype,hserver⟩ | ⟨horigin,htype,hserver⟩
  · have hnot : p.origin ≠ .other := by rw [horigin]; decide
    have hcurrent : st.tables.clientIds p.msg.clientId = some p.msg.serverId := by
      rw [hown,hserver,hid]
    cases hturn with
    | other _ hother => exact absurd hown hother
    | dropped tables t _ hs htarget =>
      have hopens := FtpServer.turn_opens (.inr ⟨htype,hcurrent⟩) hs
      have hne : drawn ≠ o := fun he => by
        rw [hopens.target,if_pos (.inr (hserver.trans he.symm))] at htarget
        exact hopens.named htarget
      have hnew : Replaced o drawn { st with tables := tables.dispatchMessage t.target p.msg } :=
        opens_replaced hown hopens hne (.inr hid)
      rw [hopens.created]
      refine h.served htake (.inl rfl) (.inl rfl) (.starting drawn ho ?_ rfl ⟨p,by simp,horigin⟩)
      exact ⟨hnew.id,hnew.named,hnew.fresh,hnew.past⟩
    | ran tables t r _ hs htarget hactive _ =>
      have hopens := FtpServer.turn_opens (.inr ⟨htype,hcurrent⟩) hs
      rw [hopens.target,hserver] at htarget hactive
      -- the new thread has drawn the id of the old one, and its flag is the old one's
      split_ifs at htarget hactive with hsame
      · have hsame : o = drawn := hsame.resolve_left ho
        rw [hopens.redrawn (hown ▸ hsame ▸ hid)] at hactive
        cases hactive
      · exact absurd rfl htarget
  · have hnot : p.origin ≠ .other := by rw [horigin]; decide
    have hheard : ∀ {tables t}, st.tables.turn ⟨p.msg,drawn⟩ = some (tables,t) →
        tables = st.tables ∧ t = ⟨p.msg.clientId,none,none,o⟩ :=
      FtpServer.turn_heard (hown ▸ hid) (.inl ⟨hserver,ho⟩)
    cases hturn with
    | other _ hother => exact absurd hown hother
    | dropped tables t _ hs htarget =>
      obtain ⟨rfl,rfl⟩ := hheard hs
      exact absurd htarget ho
    | ran tables t r _ hs _ _ hrun =>
      obtain ⟨rfl,rfl⟩ := hheard hs
      have hrun : st.upload.server.run p.msg disk = some r := hrun
      rw [ServerThread.run_waiting_resp disk hready.state htype] at hrun
      obtain rfl := Option.some.inj hrun
      refine h.echoes htake hnot rfl hready.named.own ho ?_ hready
      rw [(FtpServer.dispatchMessage_tables st.tables _ p.msg).1]
      exact hid

-- what a thread that has taken over is to hear, copies of the HANDSHAKE included
theorem Replaced.heard (h : Replaced o n st) (hown : p.msg.clientId = st.clientId)
    (hmsg : p.msg.serverId = nullServerId ∨ p.msg.type ≠ .handshake ∧ p.msg.serverId = n ∨
      p.msg.type = .handshake ∧ p.msg.serverId = o) {tables : FtpServer} {t : FtpServer.Turn}
    (hs : st.tables.turn ⟨p.msg,drawn⟩ = some (tables,t)) :
    tables = st.tables ∧ t = ⟨p.msg.clientId,none,none,n⟩ := by
  refine FtpServer.turn_heard (hown ▸ h.id) ?_ hs
  rcases hmsg with hnull | hcurrent | ⟨htype,hserver⟩
  · exact .inl ⟨hnull,h.named⟩
  · exact .inr (.inl hcurrent)
  · rcases h.past with hnull | hpast
    · exact .inl ⟨hserver.trans hnull,h.named⟩
    · exact .inr (.inr ⟨htype,hserver ▸ h.fresh.symm,by rw [hown,hserver,hpast]⟩)

theorem Between.heard (h : Between o voice st taken)
    (htake : st.upload.path.take .two = some (p,path)) (hown : p.msg.clientId = st.clientId)
    (hnew : Replaced o n st) {tables : FtpServer} {t : FtpServer.Turn}
    (hs : st.tables.turn ⟨p.msg,drawn⟩ = some (tables,t)) :
    tables = st.tables ∧ t = ⟨p.msg.clientId,none,none,n⟩ := by
  refine hnew.heard hown ?_ hs
  rcases h.own htake hown with ⟨_,hcopy⟩ | ⟨_,_,hnull⟩
  · exact .inr (.inr hcopy)
  · exact .inl hnull

theorem Between.serve_starting (h : Between o none st taken)
    (htake : st.upload.path.take .two = some (p,path)) (hown : p.msg.clientId = st.clientId)
    (hturn : Turned st drawn disk p path st') (hnew : Replaced o n st)
    (hserver : st.upload.server = started n) (htaken : ∃ x ∈ taken, x.origin = .handshake) :
    Between o (some n) st' (taken ++ [p]) := by
  have hnot : p.origin ≠ .other := by
    rcases h.own htake hown with ⟨horigin,_⟩ | ⟨horigin,_⟩
    all_goals rw [horigin]; decide
  cases hturn with
  | other _ hother => exact absurd hown hother
  | dropped tables t _ hs htarget =>
    obtain ⟨rfl,rfl⟩ := h.heard htake hown hnew hs
    exact absurd htarget hnew.named
  | ran tables t r _ hs _ _ hrun =>
    obtain ⟨rfl,rfl⟩ := h.heard htake hown hnew hs
    have hkept := (undisturbed_rfl st.clientId st.tables).dispatchMessage n p.msg
    have hnew' : Replaced o n { st with tables := st.tables.dispatchMessage n p.msg } :=
      hnew.same rfl hkept
    exact h.greets htake hnot hnew' (.inl hserver) (.inl rfl) (h.clean htake htaken) hrun

theorem Between.serve_greeted (h : Between o (some n) st taken)
    (htake : st.upload.path.take .two = some (p,path)) (hown : p.msg.clientId = st.clientId)
    (hturn : Turned st drawn disk p path st') (hnew : Replaced o n st)
    (hready : Ready st.upload.server n)
    (hclean : (st.upload.path.line .one []).All fun p => p.origin ≠ .past) :
    Between o (some n) st' (taken ++ [p]) := by
  obtain ⟨hp,hrest⟩ := Path.all_take .one htake hclean
  obtain ⟨horigin,htype,_⟩ : p.origin = .handshake ∧ p.msg.type = .handshake ∧ _ := by
    rcases h.own htake hown with hh | ⟨hpast,_⟩
    · exact hh
    · exact absurd hpast hp
  cases hturn with
  | other _ hother => exact absurd hown hother
  | dropped tables t _ hs htarget =>
    obtain ⟨rfl,rfl⟩ := h.heard htake hown hnew hs
    exact absurd htarget hnew.named
  | ran tables t r _ hs _ _ hrun =>
    obtain ⟨rfl,rfl⟩ := h.heard htake hown hnew hs
    have hkept := (undisturbed_rfl st.clientId st.tables).dispatchMessage n p.msg
    have hnew' : Replaced o n { st with tables := st.tables.dispatchMessage n p.msg } :=
      hnew.same rfl hkept
    exact h.greets htake (by rw [horigin]; decide) hnew' (.inr ⟨hready,htype⟩) (.inr rfl) hrest hrun

theorem Between.serve (h : Between o voice st taken) (hs : st.serve drawn disk = some st') :
    ∃ voice' taken', Between o voice' st' taken' ∧ (voice = none ∨ voice' = voice) := by
  obtain ⟨p,path,htake,hturn⟩ := serve_spec hs
  by_cases hown : p.msg.clientId = st.clientId
  · have hmeets := h.meets
    cases hmeets with
    | unknown ho hid hclean => exact ⟨_,_,h.serve_unknown htake hown hturn ho hid hclean,.inl rfl⟩
    | known ho hid hready => exact ⟨_,_,h.serve_known htake hown hturn ho hid hready,.inl rfl⟩
    | starting n _ hnew hserver htaken =>
      exact ⟨_,_,h.serve_starting htake hown hturn hnew hserver htaken,.inl rfl⟩
    | greeted n hnew hready hclean =>
      exact ⟨_,_,h.serve_greeted htake hown hturn hnew hready hclean,.inr rfl⟩
  · cases hturn with
    | other tables _ hkept =>
      refine ⟨voice,taken ++ [p],h.served htake (.inr rfl) (.inl rfl) ?_,.inr rfl⟩
      refine h.meets.same rfl hkept rfl (fun hclean => ?_) fun x hx => List.mem_append_left _ hx
      exact (Path.all_take .one htake hclean).2
    | dropped _ _ hc => exact absurd hc hown
    | ran _ _ _ hc => exact absurd hc hown

end UploadSession
end FtpOverUdp
