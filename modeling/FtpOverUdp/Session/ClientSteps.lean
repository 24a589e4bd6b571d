import FtpOverUdp.Session.Invariant

namespace FtpOverUdp

open Library

namespace Network

variable {st st' : Network} {taken : List Parcel}

theorem Inv.evolves (h : st.Inv) {path : Path Parcel}
    (hl : Path.Evolves id (fun _ _ => True) st.path path) : Inv { st with path := path } := by
  obtain ⟨taken,hworks,hreplies⟩ := h.down
  exact h.withPath (hl.all (fun _ => id) h.up)
    ⟨taken,fun S w hw => (hworks S w hw).routed hl,hreplies.routed hl⟩

theorem Inv.sendUp (h : st.Inv) {p : Parcel} (hp : st.FromClient p) :
    Inv { st with path := st.path.send .one p } := by
  obtain ⟨taken,hworks,hreplies⟩ := h.down
  have hm : Moves st { st with path := st.path.send .one p } :=
    .of_tables (fun c => sameCounts_refl _) rfl rfl
  have hline : downLine { st with path := st.path.send .one p } taken = st.downLine taken :=
    Path.line_send_other _ _ _ (by decide)
  refine h.withPath ?_ ⟨taken,fun S w hw => hm.works h.agreed h.agreed.sound hline (hworks S w hw),
    hm.replies hline (fun _ => .refl _) hreplies.inbox hreplies⟩
  rw [Path.line_send_self]
  exact h.up.push hp

theorem Inv.retransmit (h : st.Inv) {c : ℤ} {request : Msg}
    (hs : st.retransmit c request = some st') : st'.Inv := by
  unfold Network.retransmit at hs
  split_ifs at hs with hmem
  refine Option.some.inj hs ▸ h.sendUp fun _ => ?_
  rw [(h.agreed.requests c request hmem).clientId]
  exact hmem

theorem emit_spec {msg : Msg} {outlived : Bool} (hs : st.emit msg outlived = some st') :
    msg.type ≠ .handshake ∧ 1 ≤ (st.clients msg.clientId).completed ∧
      knows (st.clients msg.clientId) msg.serverId = true ∧ ∃ session,
        (∀ T, session = some T → (st.clients msg.clientId).syncing = false ∧
          T = (st.clients msg.clientId).serverIdentifier) ∧
        st' = { st with path := st.path.send .one ⟨msg,session,false⟩ } := by
  dsimp only [Network.emit] at hs
  by_cases hguard : msg.type ≠ .handshake ∧ 1 ≤ (st.clients msg.clientId).completed ∧
      knows (st.clients msg.clientId) msg.serverId
  · rw [if_pos hguard] at hs
    refine ⟨hguard.1,hguard.2.1,hguard.2.2,_,fun T hT => ?_,(Option.some.inj hs).symm⟩
    split_ifs at hT with hover
    exact ⟨by simp_all,(Option.some.inj hT).symm⟩
  · rw [if_neg hguard] at hs
    cases hs

theorem Inv.emit (h : st.Inv) {msg : Msg} {outlived : Bool}
    (hs : st.emit msg outlived = some st') : st'.Inv := by
  obtain ⟨htype,_,_,_,_,rfl⟩ := emit_spec hs
  exact h.sendUp fun ht => absurd ht htype

theorem Inv.emitServer (h : st.Inv) {msg : Msg} (hs : st.emitServer msg = some st') :
    st'.Inv := by
  unfold Network.emitServer at hs
  split_ifs at hs with htype
  obtain ⟨taken,hworks,hreplies⟩ := h.down
  refine Option.some.inj hs ▸ h.withPath ?_ ⟨taken,fun S w hw =>
    (hworks S w hw).push fun ht => absurd ht htype,hreplies.push fun ht => absurd ht htype⟩
  rw [Path.line_send_other _ _ _ (by decide)]
  exact h.up

theorem setClient_self (st : Network) (c : ℤ) (cl : FtpClient) : (st.setClient c cl).clients c = cl :=
  Function.update_self ..

theorem setClient_of_ne (st : Network) {c c' : ℤ} (cl : FtpClient) (h : c' ≠ c) :
    (st.setClient c cl).clients c' = st.clients c' := Function.update_of_ne h ..

theorem forall_setClient {P : ℤ → FtpClient → Prop} {c : ℤ} {cl : FtpClient} (hnew : P c cl)
    (hold : ∀ c', c' ≠ c → P c' (st.clients c')) (c' : ℤ) : P c' ((st.setClient c cl).clients c') := by
  by_cases hc : c' = c
  · subst hc
    rwa [setClient_self]
  · rw [setClient_of_ne _ _ hc]
    exact hold c' hc

theorem sameCounts_inbox (st : Network) (c : ℤ) (inbox : List Parcel) (c' : ℤ) :
    SameCounts (st.clients c')
      ((st.setClient c { st.clients c with inbox := inbox }).clients c') := by
  refine forall_setClient (P := fun c' cl => SameCounts (st.clients c') cl) ?_
    (fun _ _ => sameCounts_refl _) c'
  exact ⟨rfl,rfl,rfl,rfl⟩

theorem coming_relay {p : Parcel} {path : Path Parcel} (htake : st.path.take .one = some (p,path))
    (c : ℤ) : coming { st.setClient p.msg.clientId { st.clients p.msg.clientId with
      inbox := (st.clients p.msg.clientId).inbox ++ [p] } with path := path } c = st.coming c := by
  obtain ⟨hd,-⟩ := Path.take_spec htake
  simp only [coming,hd,List.filter_cons]
  by_cases hc : c = p.msg.clientId
  · subst hc
    simp [setClient_self]
  · rw [setClient_of_ne _ _ hc,if_neg (by simpa using Ne.symm hc)]

theorem Inv.relay (h : st.Inv) (hs : st.relay = some st') : st'.Inv := by
  obtain ⟨⟨p,path⟩,htake,rfl⟩ := Option.map_eq_some_iff.mp hs
  obtain ⟨taken,hworks,hreplies⟩ := h.down
  have hc := sameCounts_inbox st p.msg.clientId ((st.clients p.msg.clientId).inbox ++ [p])
  have hline : path.line .two (taken ++ [p]) = st.path.line .two taken := Path.line_take_self htake
  have hup : path.line .one [] = st.path.line .one [] := Path.line_take_other htake
  have hm : Moves st { st.setClient p.msg.clientId { st.clients p.msg.clientId with
      inbox := (st.clients p.msg.clientId).inbox ++ [p] } with path := path } :=
    .of_tables hc rfl rfl
  refine ⟨hm.agreed h.agreed h.agreed.sound hc (fun _ => id) h.agreed.counts (fun _ _ => id)
    (hm.staged h.agreed h.agreed.sound rfl rfl rfl),?_,taken ++ [p],fun S w hw =>
      hm.works h.agreed h.agreed.sound hline (hworks S w hw),hm.replies hline (fun c => coming_relay htake c ▸ .refl _) ?_ hreplies⟩
  · rw [hup]
    intro q hq ht
    rw [(hc _).requests]
    exact h.up q hq ht
  · intro c q hq
    by_cases hcp : c = p.msg.clientId
    · subst hcp
      rw [setClient_self] at hq
      rcases List.mem_append.mp hq with hq | hq
      · exact (hreplies.inbox _ q hq).imp id (List.mem_append_left _)
      · obtain rfl := List.mem_singleton.mp hq
        exact ⟨rfl,List.mem_append_right _ hq⟩
    · rw [setClient_of_ne _ _ hcp] at hq
      exact (hreplies.inbox c q hq).imp id (List.mem_append_left _)

def discard (st : Network) (c : ℤ) (rest : List Parcel) : Network :=
  st.setClient c { st.clients c with inbox := rest }

def adopt (st : Network) (c : ℤ) (rest : List Parcel) (p : Parcel) : Network :=
  st.setClient c { st.clients c with
    inbox := rest
    serverIdentifier := p.msg.serverId
    syncing := false }

theorem read_cases {c : ℤ} (hs : st.read c = some st') :
    ∃ p rest, (st.clients c).inbox = p :: rest ∧
      (answers (st.clients c) p.msg = true ∧ st' = st.adopt c rest p ∨ st' = st.discard c rest) := by
  unfold Network.read at hs
  dsimp only at hs
  cases hinbox : (st.clients c).inbox with
  | nil =>
    rw [hinbox] at hs
    cases hs
  | cons p rest =>
    rw [hinbox] at hs
    dsimp only at hs
    split_ifs at hs with ha
    · exact ⟨p,rest,rfl,.inl ⟨ha,(Option.some.inj hs).symm⟩⟩
    · exact ⟨p,rest,rfl,.inr (Option.some.inj hs).symm⟩

theorem coming_setClient {c : ℤ} {p : Parcel} {rest : List Parcel} (cl : FtpClient)
    (hinbox : (st.clients c).inbox = p :: rest) (hcl : cl.inbox = rest) :
    st.coming c = p :: (st.setClient c cl).coming c ∧
      ∀ c', c' ≠ c → (st.setClient c cl).coming c' = st.coming c' := by
  refine ⟨?_,fun c' hc => ?_⟩
  · rw [coming,coming,setClient_self,hinbox,hcl]
    rfl
  · rw [coming,coming,setClient_of_ne _ _ hc]
    rfl

theorem Inv.discard (h : st.Inv) {c : ℤ} {p : Parcel} {rest : List Parcel}
    (hinbox : (st.clients c).inbox = p :: rest) : (st.discard c rest).Inv := by
  obtain ⟨taken,hworks,hreplies⟩ := h.down
  have hc := sameCounts_inbox st c rest
  have hm : Moves st (st.discard c rest) := .of_tables hc rfl rfl
  obtain ⟨hself,hother⟩ := coming_setClient { st.clients c with inbox := rest } hinbox rfl
  refine ⟨hm.agreed h.agreed h.agreed.sound hc (fun _ => id) h.agreed.counts (fun _ _ => id)
    (hm.staged h.agreed h.agreed.sound rfl rfl rfl),fun q hq ht => ?_,taken,fun S w hw =>
      hm.works h.agreed h.agreed.sound rfl (hworks S w hw),
    hm.replies rfl (fun c' => ?_) (fun c' q hq => ?_) hreplies⟩
  · rw [Network.discard,(hc _).requests]
    exact h.up q hq ht
  · by_cases hcc : c' = c
    · subst hcc
      rw [hself]
      exact List.sublist_cons_self ..
    · rw [Network.discard,hother c' hcc]
  · by_cases hcc : c' = c
    · subst hcc
      rw [Network.discard,setClient_self] at hq
      exact hreplies.inbox c' q (hinbox ▸ List.mem_cons_of_mem p hq)
    · rw [Network.discard,setClient_of_ne _ _ hcc] at hq
      exact hreplies.inbox c' q hq

section Adopt

variable {c : ℤ} {p : Parcel} {rest : List Parcel} (h : st.Inv)
  (hinbox : (st.clients c).inbox = p :: rest) (ha : answers (st.clients c) p.msg = true)

theorem answers_spec {cl : FtpClient} {msg : Msg} (ha : answers cl msg = true) :
    cl.syncing = true ∧ msg.type = .handshake ∧ msg.serverId ≠ cl.serverIdentifier ∧
      msg.count = cl.syncCount := by
  simpa [answers,and_assoc] using ha

theorem adopt_self : (st.adopt c rest p).clients c = { st.clients c with
    inbox := rest
    serverIdentifier := p.msg.serverId
    syncing := false } := setClient_self ..

theorem adopt_stage : (st.adopt c rest p).stage = st.stage := rfl

theorem adopt_of_ne {c' : ℤ} (hc : c' ≠ c) : (st.adopt c rest p).clients c' = st.clients c' :=
  setClient_of_ne _ _ hc

theorem adopt_sync (c' : ℤ) :
    ((st.adopt c rest p).clients c').requests = (st.clients c').requests ∧
      ((st.adopt c rest p).clients c').syncCount = (st.clients c').syncCount := by
  refine forall_setClient (P := fun c' cl => cl.requests = (st.clients c').requests ∧
    cl.syncCount = (st.clients c').syncCount) ?_ (fun _ _ => ⟨rfl,rfl⟩) c'
  exact ⟨rfl,rfl⟩

theorem adopt_completed : ((st.adopt c rest p).clients c).completed = (st.clients c).syncCount := by
  rw [adopt_self]
  rfl

include hinbox in
theorem head_coming : st.coming c = p :: (st.adopt c rest p).coming c :=
  (coming_setClient _ hinbox rfl).1

include hinbox in
theorem coming_adopt (c' : ℤ) : ((st.adopt c rest p).coming c').Sublist (st.coming c') := by
  by_cases hc : c' = c
  · subst hc
    rw [head_coming hinbox]
    exact List.sublist_cons_self ..
  · rw [adopt,(coming_setClient _ hinbox rfl).2 c' hc]

theorem fresh_adopt {c' S count : ℤ} (hf : st.Fresh c' S count) :
    (st.adopt c rest p).Fresh c' S count := by
  by_cases hc : c' = c
  · subst hc
    left
    rw [adopt_completed]
    rcases hf with hle | ⟨_,hle⟩
    · refine hle.trans ?_
      unfold FtpClient.completed
      split_ifs <;> omega
    · exact hle
  · rw [Fresh,Unadopted,adopt_of_ne hc]
    exact hf

theorem handed_adopt {S : ℤ} {m : Msg} (hh : st.Handed S m) : (st.adopt c rest p).Handed S m :=
  ⟨fun ht => (hh.1 ht).imp id fresh_adopt,hh.2⟩

include h hinbox ha

theorem Inv.answer_unadopted : st.Unadopted c p.msg.serverId := by
  obtain ⟨hsync,htype,hne,hcount⟩ := answers_spec ha
  obtain ⟨taken,-,hreplies⟩ := h.down
  have hp : p ∈ st.coming c := by
    rw [head_coming hinbox]
    exact List.mem_cons_self
  cases hecho : p.echo with
  | true =>
    rcases hreplies.echoes c p hp htype hecho with hle | hfresh
    · have hone := h.agreed.syncing c hsync
      rw [hcount,FtpClient.completed,if_pos hsync] at hle
      omega
    · exact hfresh.1
  | false =>
    rcases hreplies.wild c p hp ⟨htype,hecho⟩ with hu | he
    · exact hu
    · exact absurd he hne

theorem Inv.request_adopt {c' : ℤ} {request : Msg} (hr : st.Request c' request) :
    (st.adopt c rest p).Request c' request := by
  by_cases hc : c' = c
  · subst hc
    refine ⟨hr.type,hr.clientId,hr.length,by rw [(adopt_sync c').2]; exact hr.count,hr.drawn,fun hact => ?_,?_⟩
    · -- the id the client leaves is not in use any more
      have hown := h.agreed.own c'
      rw [← (hr.active hact).2.1] at hown
      have hS := (h.answer_unadopted hinbox ha).1.1.symm.trans (hown hact)
      exact absurd ((Option.some.inj hS).trans (hr.active hact).2.1) (answers_spec ha).2.2.1
    · rw [adopt_self]
      simp
  · refine ⟨hr.type,hr.clientId,hr.length,?_,hr.drawn,?_,?_⟩ <;> rw [adopt_of_ne hc]
    exacts [hr.count,hr.active,hr.current]

omit hinbox ha in
theorem Inv.staged_adopt : (st.adopt c rest p).Staged := by
  have hold := h.agreed.staged
  unfold Staged at hold ⊢
  rw [adopt_stage]
  cases hs : st.stage with
  | ready => trivial
  | dispatching S q =>
    rw [hs] at hold
    exact ⟨hold.1,fun hact => handed_adopt (hold.2 hact)⟩
  | retiring q | joining q =>
    rw [hs] at hold
    exact hold

theorem Inv.agreed_adopt : (st.adopt c rest p).Agreed := by
  have hu := h.answer_unadopted hinbox ha
  have hone := h.agreed.syncing c (answers_spec ha).1
  refine ⟨h.agreed.sound,?_,fun m hm ht => ?_,?_,?_,?_,?_,fun c' request hr => ?_,
    h.staged_adopt⟩
  · refine forall_setClient (P := fun c' cl => 1 ≤ cl.completed →
      (∀ m ∈ st.served, m.clientId = c' → m.type = .handshake → m.count ≤ cl.completed) →
        st.Lives c' cl.serverIdentifier) (fun _ _ => hu.1) fun c' _ => h.agreed.settled c'
  · rw [(adopt_sync _).2]
    exact h.agreed.counts m hm ht
  · refine forall_setClient (P := fun _ cl => cl.serverIdentifier = nullServerId ∨
      st.Drawn cl.serverIdentifier) (.inr ?_) fun c' _ => h.agreed.adopted c'
    exact Option.isSome_iff_exists.mpr ⟨true,hu.1.2⟩
  · refine forall_setClient (P := fun _ cl => cl.completed = 0 → cl.serverIdentifier = nullServerId)
      (fun hzero => ?_) fun c' _ => h.agreed.never c'
    simp only [FtpClient.completed,Bool.false_eq_true,if_false] at hzero
    omega
  · exact forall_setClient (P := fun _ cl => cl.syncing = true → 1 ≤ cl.syncCount) (by simp)
      fun c' _ => h.agreed.syncing c'
  · exact forall_setClient (P := fun c' cl => st.tables.isThreadActive cl.serverIdentifier = some true →
      st.tables.clientIds c' = some cl.serverIdentifier) (fun _ => hu.1.1) fun c' _ => h.agreed.own c'
  · rw [(adopt_sync c').1] at hr
    exact h.request_adopt hinbox ha (h.agreed.requests c' request hr)

omit h in
theorem works_adopt {taken : List Parcel} (hreplies : st.Replies taken) {S : ℤ} {w : Worker}
    (hw : st.Works taken S w) : (st.adopt c rest p).Works taken S w := by
  refine ⟨hw.serverId,hw.drawn,hw.booting,fun m hb hi => handed_adopt (hw.busy m hb hi),
    fun m hb hact => handed_adopt (hw.signalled m hb hact),hw.first,fun hst hact => ?_⟩
  obtain ⟨hids,hno⟩ := hw.fresh hst hact
  refine ⟨fun c' => ?_,hno⟩
  by_cases hc : c' = c
  · subst hc
    have hp : p ∈ st.coming c' := by
      rw [head_coming hinbox]
      exact List.mem_cons_self
    rw [adopt_self]
    exact hno p (List.mem_append_left _ (hreplies.coming_passed hp)) (answers_spec ha).2.1
  · rw [adopt_of_ne hc]
    exact hids c'

theorem Inv.replies_adopt {taken : List Parcel} (hreplies : st.Replies taken) :
    (st.adopt c rest p).Replies taken := by
  have hu := h.answer_unadopted hinbox ha
  obtain ⟨hsync,htype,hne,-⟩ := answers_spec ha
  have hpassed : p ∈ (st.downLine taken).passed := by
    apply hreplies.coming_passed (c := c)
    rw [head_coming hinbox]
    exact List.mem_cons_self
  refine ⟨hreplies.order,fun c' q hq => ?_,hreplies.drawn,fun c' q hq ht he => ?_,
    fun c' q hq hw => ?_,fun q hq ht => ⟨fun he => ?_,fun he => ?_⟩,fun c' => ?_⟩
  · by_cases hc : c' = c
    · subst hc
      rw [adopt_self] at hq
      exact hreplies.inbox c' q (hinbox ▸ List.mem_cons_of_mem p hq)
    · rw [adopt_of_ne hc] at hq
      exact hreplies.inbox c' q hq
  · exact fresh_adopt (hreplies.echoes c' q ((coming_adopt hinbox c').subset hq) ht he)
  · have hold := hreplies.wild c' q ((coming_adopt hinbox c').subset hq) hw
    by_cases hc : c' = c
    · subst hc
      right
      rw [adopt_self]
      rcases hold with hq' | he
      · exact Option.some.inj (hq'.1.1.symm.trans hu.1.1)
      · have hbehind := hreplies.behind c'
        rw [head_coming hinbox] at hbehind
        exact absurd ((List.pairwise_cons.mp hbehind).1 q hq hw he htype hu.1) hne
    · rw [Unadopted,adopt_of_ne hc]
      exact hold
  · exact fresh_adopt ((hreplies.waiting q hq ht).1 he)
  · have hold := (hreplies.waiting q hq ht).2 he
    by_cases hc : q.msg.clientId = c
    · refine ⟨hold.1,?_⟩
      rw [hc,adopt_self]
      exact hreplies.order.ahead p hpassed q hq ⟨ht,he⟩ htype
    · rw [Unadopted,adopt_of_ne hc]
      exact hold
  · have hsub := (hreplies.behind c').sublist (coming_adopt hinbox c')
    by_cases hc : c' = c
    · subst hc
      refine hsub.imp fun _ _ _ _ hl => ?_
      rw [adopt_self]
      exact Option.some.inj (hl.1.symm.trans hu.1.1)
    · rw [adopt_of_ne hc]
      exact hsub

theorem Inv.adopt : (st.adopt c rest p).Inv := by
  obtain ⟨taken,hworks,hreplies⟩ := h.down
  refine ⟨h.agreed_adopt hinbox ha,fun q hq ht => ?_,taken,fun S w hw =>
    works_adopt hinbox ha hreplies (hworks S w hw),h.replies_adopt hinbox ha hreplies⟩
  rw [(adopt_sync _).1]
  exact h.up q hq ht

end Adopt

theorem Inv.read (h : st.Inv) {c : ℤ} (hs : st.read c = some st') : st'.Inv := by
  obtain ⟨p,rest,hinbox,⟨ha,rfl⟩ | rfl⟩ := read_cases hs
  · exact h.adopt hinbox ha
  · exact h.discard hinbox

theorem count_encode {count : ℕ} (h : count < 2 ^ 31) (serverId c sequenceNumber : ℤ) :
    (SenderThread.create serverId c .handshake sequenceNumber (encodeInt count)).msg.count = count := by
  rw [Msg.count]
  exact decodeInt_encodeInt (by omega) (by omega) _

section Begin

variable {c : ℤ} {request : Msg}

def begin (st : Network) (c : ℤ) (request : Msg) : Network :=
  st.setClient c { st.clients c with
    syncCount := (st.clients c).syncCount + 1
    syncing := true
    requests := (st.clients c).requests ++ [request] }

structure Begins (st : Network) (c : ℤ) (request : Msg) : Prop where
  idle : (st.clients c).syncing = false
  type : request.type = .handshake
  clientId : request.clientId = c
  length : request.length = 4
  serverId : request.serverId = (st.clients c).serverIdentifier
  count : request.count = ((st.clients c).syncCount + 1 : ℕ)

theorem beginSync_spec {sequenceNumber : ℤ} (hs : st.beginSync c sequenceNumber = some st') :
    ∃ request, st.Begins c request ∧ st' = st.begin c request := by
  dsimp only [Network.beginSync] at hs
  split_ifs at hs with hguard
  exact ⟨_,⟨hguard.1,rfl,rfl,rfl,rfl,count_encode hguard.2 ..⟩,(Option.some.inj hs).symm⟩

theorem begin_self : (st.begin c request).clients c = { st.clients c with
    syncCount := (st.clients c).syncCount + 1
    syncing := true
    requests := (st.clients c).requests ++ [request] } := setClient_self ..

theorem begin_of_ne {c' : ℤ} (hc : c' ≠ c) : (st.begin c request).clients c' = st.clients c' :=
  setClient_of_ne _ _ hc

theorem begin_kept (c' : ℤ) :
    ((st.begin c request).clients c').serverIdentifier = (st.clients c').serverIdentifier ∧
      ((st.begin c request).clients c').inbox = (st.clients c').inbox ∧
      (st.clients c').syncCount ≤ ((st.begin c request).clients c').syncCount ∧
      ∀ r ∈ (st.clients c').requests, r ∈ ((st.begin c request).clients c').requests := by
  refine forall_setClient (P := fun c' cl => cl.serverIdentifier = (st.clients c').serverIdentifier ∧
    cl.inbox = (st.clients c').inbox ∧ (st.clients c').syncCount ≤ cl.syncCount ∧
      ∀ r ∈ (st.clients c').requests, r ∈ cl.requests)
    ?_ (fun _ _ => ⟨rfl,rfl,le_rfl,fun _ => id⟩) c'
  exact ⟨rfl,rfl,Nat.le_succ _,fun _ hr => List.mem_append_left _ hr⟩

variable (hb : st.Begins c request)
include hb

theorem Begins.moves : Moves st (st.begin c request) := by
  refine .of_clients (fun c' => (begin_kept c').1) (fun c' => ?_)
    (fun c' => (begin_kept c').2.2.1) rfl rfl
  by_cases hc : c' = c
  · subst hc
    rw [begin_self,FtpClient.completed,FtpClient.completed,hb.idle]
    rfl
  · rw [begin_of_ne hc]

theorem Begins.new_request (h : st.Inv) : (st.begin c request).Request c request := by
  refine ⟨hb.type,hb.clientId,hb.length,?_,?_,fun _ => ?_,fun _ _ => ?_⟩
  · rw [begin_self]
    exact hb.count.le
  · rw [hb.serverId]
    exact h.agreed.adopted c
  · rw [begin_self]
    exact ⟨rfl,hb.serverId,hb.count⟩
  · rw [begin_self]
    exact hb.serverId

theorem Begins.old_request {r : Msg} (hr : st.Request c r) : (st.begin c request).Request c r := by
  have hcount := hr.count
  refine ⟨hr.type,hr.clientId,hr.length,?_,hr.drawn,fun hact => ?_,fun _ he => ?_⟩
  · rw [begin_self]
    push_cast
    omega
  · have hsync := (hr.active hact).1
    rw [hb.idle] at hsync
    cases hsync
  · rw [begin_self] at he
    push_cast at he
    omega

theorem Begins.agreed (h : st.Inv) : (st.begin c request).Agreed := by
  have hm := hb.moves
  refine ⟨h.agreed.sound,fun c' hone hset => ?_,fun m hmem ht => ?_,fun c' => ?_,fun c' => ?_,
    fun c' => ?_,fun c' => ?_,fun c' r hr => ?_,hm.staged h.agreed h.agreed.sound rfl rfl rfl⟩
  · rw [Settled,hm.completed] at hset
    rw [hm.completed] at hone
    rw [hm.serverIdentifier]
    exact h.agreed.settled c' hone hset
  · have hle := h.agreed.counts m hmem ht
    have hgrow := hm.syncCount m.clientId
    omega
  · rw [hm.serverIdentifier]
    exact h.agreed.adopted c'
  · rw [hm.completed,hm.serverIdentifier]
    exact h.agreed.never c'
  · exact forall_setClient (P := fun _ cl => cl.syncing = true → 1 ≤ cl.syncCount)
      (fun _ => Nat.le_add_left ..) (fun c' _ => h.agreed.syncing c') c'
  · rw [hm.serverIdentifier]
    exact h.agreed.own c'
  · by_cases hc : c' = c
    · subst hc
      rw [begin_self] at hr
      rcases List.mem_append.mp hr with hr | hr
      · exact hb.old_request (h.agreed.requests c' r hr)
      · exact List.mem_singleton.mp hr ▸ hb.new_request h
    · rw [begin_of_ne hc] at hr
      refine hm.request h.agreed.sound ?_ (h.agreed.requests c' r hr)
      rw [begin_of_ne hc]
      exact sameCounts_refl _

theorem Begins.inv (h : st.Inv) : (st.begin c request).Inv := by
  obtain ⟨taken,hworks,hreplies⟩ := h.down
  have hm := hb.moves
  refine ⟨hb.agreed h,fun q hq ht => (begin_kept _).2.2.2 _ (h.up q hq ht),taken,fun S w hw =>
    hm.works h.agreed h.agreed.sound rfl (hworks S w hw),hm.replies rfl (fun c' => ?_)
      (fun c' q hq => hreplies.inbox c' q ((begin_kept c').2.1 ▸ hq)) hreplies⟩
  rw [coming,coming,(begin_kept c').2.1]
  exact .refl _

end Begin

theorem Inv.beginSync (h : st.Inv) {c sequenceNumber : ℤ}
    (hs : st.beginSync c sequenceNumber = some st') : st'.Inv := by
  obtain ⟨request,hb,rfl⟩ := beginSync_spec hs
  exact hb.inv h

end Network
end FtpOverUdp
