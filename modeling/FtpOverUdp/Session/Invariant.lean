import FtpOverUdp.Session.Network

namespace FtpOverUdp

open Library

namespace Network

def Lives (st : Network) (c S : ℤ) : Prop :=
  st.tables.clientIds c = some S ∧ st.tables.isThreadActive S = some true

def Unadopted (st : Network) (c S : ℤ) : Prop :=
  st.Lives c S ∧ (st.clients c).serverIdentifier ≠ S

-- a HANDSHAKE with this count, echoed by thread `S`, is old or makes the client adopt `S`
def Fresh (st : Network) (c S count : ℤ) : Prop :=
  count ≤ (st.clients c).completed ∨ st.Unadopted c S ∧ count ≤ (st.clients c).syncCount

def Drawn (st : Network) (S : ℤ) : Prop := (st.tables.isThreadActive S).isSome

def Settled (st : Network) (c : ℤ) : Prop :=
  ∀ m ∈ st.served, m.clientId = c → m.type = .handshake → m.count ≤ (st.clients c).completed

structure Request (st : Network) (c : ℤ) (request : Msg) : Prop where
  type : request.type = .handshake
  clientId : request.clientId = c
  length : request.length = 4
  count : request.count ≤ (st.clients c).syncCount
  drawn : request.serverId = nullServerId ∨ st.Drawn request.serverId
  active : st.tables.isThreadActive request.serverId = some true →
    (st.clients c).syncing = true ∧ request.serverId = (st.clients c).serverIdentifier ∧
      request.count = (st.clients c).syncCount
  current : (st.clients c).syncing = true → request.count = (st.clients c).syncCount →
    request.serverId = (st.clients c).serverIdentifier

def Handed (st : Network) (S : ℤ) (m : Msg) : Prop :=
  (m.type = .handshake → m.length = 4 ∧ st.Fresh m.clientId S m.count) ∧
    (st.tables.isThreadActive S = some true → st.tables.clientIds m.clientId = some S)

def Staged (st : Network) : Prop :=
  match st.stage with
  | .ready => True
  | .dispatching S p => st.Drawn S ∧ (st.tables.isThreadActive S = some true → st.Handed S p.msg)
  | .retiring p | .joining p => st.tables.clientIds p.msg.clientId = some p.msg.serverId ∧
      st.tables.isThreadActive p.msg.serverId = some false

structure Agreed (st : Network) : Prop where
  sound : st.tables.Sound (fun _ => True)
  settled : ∀ c, 1 ≤ (st.clients c).completed → st.Settled c →
    st.Lives c (st.clients c).serverIdentifier
  counts : ∀ m ∈ st.served, m.type = .handshake → m.count ≤ (st.clients m.clientId).syncCount
  adopted : ∀ c, (st.clients c).serverIdentifier = nullServerId ∨
    st.Drawn (st.clients c).serverIdentifier
  never : ∀ c, (st.clients c).completed = 0 → (st.clients c).serverIdentifier = nullServerId
  syncing : ∀ c, (st.clients c).syncing = true → 1 ≤ (st.clients c).syncCount
  own : ∀ c, st.tables.isThreadActive (st.clients c).serverIdentifier = some true →
    st.tables.clientIds c = some (st.clients c).serverIdentifier
  requests : ∀ c, ∀ request ∈ (st.clients c).requests, st.Request c request
  staged : st.Staged

def FromClient (st : Network) (p : Parcel) : Prop :=
  p.msg.type = .handshake → p.msg ∈ (st.clients p.msg.clientId).requests

-- a HANDSHAKE that a thread sent in answer to a first message of another type
def Wild (p : Parcel) : Prop := p.msg.type = .handshake ∧ p.echo = false

def FirstOfThread (y x : Parcel) : Prop :=
  Wild x → y.msg.type = .handshake → y.msg.serverId ≠ x.msg.serverId

def downLine (st : Network) (taken : List Parcel) : DelayLine Parcel := st.path.line .two taken

def NoReply (st : Network) (taken : List Parcel) (S : ℤ) : Prop :=
  (st.downLine taken).All fun p => p.msg.type = .handshake → p.msg.serverId ≠ S

def Starting (w : Worker) : Prop :=
  w.thread.currentState = .initializing ∨ w.thread.currentState = .startingHandshake

structure Works (st : Network) (taken : List Parcel) (S : ℤ) (w : Worker) : Prop where
  serverId : w.thread.serverId = S
  drawn : st.Drawn S
  booting : w.thread.currentState = .initializing → ∃ m, w.phase = .busy m
  busy : ∀ m, w.phase = .busy m → w.thread.currentState ≠ .initializing → st.Handed S m
  signalled : ∀ m, w.phase = .signalled m → st.tables.isThreadActive S = some true → st.Handed S m
  first : ∀ m, w.phase = .busy m → w.thread.currentState = .startingHandshake →
    st.tables.isThreadActive S = some true
  fresh : Starting w → st.tables.isThreadActive S = some true →
    (∀ c, (st.clients c).serverIdentifier ≠ S) ∧ st.NoReply taken S

def coming (st : Network) (c : ℤ) : List Parcel :=
  (st.clients c).inbox ++ (st.path.down .one).filter fun p => p.msg.clientId = c

structure Replies (st : Network) (taken : List Parcel) : Prop where
  order : (st.downLine taken).Ordered (fun p => p) FirstOfThread (fun _ => True)
  inbox : ∀ c, ∀ p ∈ (st.clients c).inbox, p.msg.clientId = c ∧ p ∈ taken
  drawn : (st.downLine taken).All fun p => p.msg.type = .handshake → st.Drawn p.msg.serverId
  echoes : ∀ c, ∀ p ∈ st.coming c, p.msg.type = .handshake → p.echo = true →
    st.Fresh c p.msg.serverId p.msg.count
  wild : ∀ c, ∀ p ∈ st.coming c, Wild p →
    st.Unadopted c p.msg.serverId ∨ p.msg.serverId = (st.clients c).serverIdentifier
  waiting : ∀ p ∈ (st.downLine taken).waiting, p.msg.type = .handshake →
    (p.echo = true → st.Fresh p.msg.clientId p.msg.serverId p.msg.count) ∧
      (p.echo = false → st.Unadopted p.msg.clientId p.msg.serverId)
  behind : ∀ c, (st.coming c).Pairwise fun y g => Wild g →
    g.msg.serverId = (st.clients c).serverIdentifier → y.msg.type = .handshake →
      st.Lives c y.msg.serverId → y.msg.serverId = (st.clients c).serverIdentifier

structure Inv (st : Network) : Prop where
  agreed : st.Agreed
  up : (st.path.line .one []).All st.FromClient
  down : ∃ taken, (∀ S w, st.workers S = some w → st.Works taken S w) ∧ st.Replies taken

structure Moves (st st' : Network) : Prop where
  serverIdentifier : ∀ c, (st'.clients c).serverIdentifier = (st.clients c).serverIdentifier
  completed : ∀ c, (st'.clients c).completed = (st.clients c).completed
  syncCount : ∀ c, (st.clients c).syncCount ≤ (st'.clients c).syncCount
  unadopted : ∀ c S, st.Unadopted c S → st'.Lives c S
  drawn : ∀ S, st.Drawn S → st'.Drawn S
  lives : ∀ c S, st'.Lives c S → st.Drawn S → st.Lives c S

variable {st st' : Network} {taken : List Parcel}

structure SameCounts (cl cl' : FtpClient) : Prop where
  serverIdentifier : cl'.serverIdentifier = cl.serverIdentifier
  syncCount : cl'.syncCount = cl.syncCount
  syncing : cl'.syncing = cl.syncing
  requests : cl'.requests = cl.requests

theorem SameCounts.completed {cl cl' : FtpClient} (h : SameCounts cl cl') :
    cl'.completed = cl.completed := by
  rw [FtpClient.completed,FtpClient.completed,h.syncing,h.syncCount]

theorem sameCounts_refl (cl : FtpClient) : SameCounts cl cl := ⟨rfl,rfl,rfl,rfl⟩

theorem Moves.of_clients
    (hid : ∀ c, (st'.clients c).serverIdentifier = (st.clients c).serverIdentifier)
    (hcompleted : ∀ c, (st'.clients c).completed = (st.clients c).completed)
    (hsync : ∀ c, (st.clients c).syncCount ≤ (st'.clients c).syncCount)
    (hids : st'.tables.clientIds = st.tables.clientIds)
    (hactive : st'.tables.isThreadActive = st.tables.isThreadActive) : Moves st st' := by
  have hlives (c S : ℤ) : st'.Lives c S ↔ st.Lives c S := by rw [Lives,Lives,hids,hactive]
  refine ⟨hid,hcompleted,hsync,fun c S h => (hlives c S).mpr h.1,fun S h => ?_,
    fun c S hl _ => (hlives c S).mp hl⟩
  rw [Drawn,hactive]
  exact h

theorem Moves.of_tables (hclients : ∀ c, SameCounts (st.clients c) (st'.clients c))
    (hids : st'.tables.clientIds = st.tables.clientIds)
    (hactive : st'.tables.isThreadActive = st.tables.isThreadActive) : Moves st st' :=
  .of_clients (fun c => (hclients c).serverIdentifier) (fun c => (hclients c).completed)
    (fun c => (hclients c).syncCount.ge) hids hactive

theorem Replies.coming_passed (h : st.Replies taken) {c : ℤ} {p : Parcel} (hp : p ∈ st.coming c) :
    p ∈ (st.downLine taken).passed := by
  rcases List.mem_append.mp hp with hp | hp
  · exact List.mem_append_left _ (h.inbox c p hp).2
  · exact List.mem_append_right _ (List.mem_filter.mp hp).1

theorem null_inactive {tables : FtpServer} (h : tables.Sound (fun _ => True)) :
    tables.isThreadActive nullServerId ≠ some true := by
  intro ha
  obtain ⟨a,_,hid⟩ := h.owned _ ha
  exact absurd (h.range _ (h.locks a _ trivial hid)).1 (by decide)

section Moves

variable (hm : Moves st st')
include hm

theorem Moves.still_unadopted {c S : ℤ} (h : st.Unadopted c S) : st'.Unadopted c S :=
  ⟨hm.unadopted c S h,by rw [hm.serverIdentifier]; exact h.2⟩

theorem Moves.fresh {c S count : ℤ} (h : st.Fresh c S count) : st'.Fresh c S count := by
  have hcount := hm.syncCount c
  rw [Fresh,hm.completed]
  exact h.imp id fun ⟨hu,hle⟩ => ⟨hm.still_unadopted hu,by omega⟩

theorem Moves.was_lives (hsound : st'.tables.Sound (fun _ => True)) {S : ℤ} (hS : st.Drawn S)
    (ha : st'.tables.isThreadActive S = some true) : ∃ c, st'.Lives c S ∧ st.Lives c S := by
  obtain ⟨c,_,hc⟩ := hsound.owned S ha
  exact ⟨c,⟨hc,ha⟩,hm.lives c S ⟨hc,ha⟩ hS⟩

theorem Moves.same_client (h : st.Agreed) (hsound : st'.tables.Sound (fun _ => True)) {c S : ℤ}
    (hS : st.Drawn S) (hc : st.tables.isThreadActive S = some true → st.tables.clientIds c = some S)
    (ha : st'.tables.isThreadActive S = some true) : st'.tables.clientIds c = some S := by
  obtain ⟨a,ha',hla⟩ := hm.was_lives hsound hS ha
  obtain rfl := h.sound.distinct a c S trivial trivial hla.1 (hc hla.2)
  exact ha'.1

theorem Moves.handed (h : st.Agreed) (hsound : st'.tables.Sound (fun _ => True)) {S : ℤ} {m : Msg}
    (hS : st.Drawn S) (hh : st.Handed S m) : st'.Handed S m :=
  ⟨fun ht => (hh.1 ht).imp id hm.fresh,hm.same_client h hsound hS hh.2⟩

theorem Moves.staged (h : st.Agreed) (hsound : st'.tables.Sound (fun _ => True))
    (hstage : st'.stage = st.stage) (hids : st'.tables.clientIds = st.tables.clientIds)
    (hactive : st'.tables.isThreadActive = st.tables.isThreadActive) : st'.Staged := by
  have hold := h.staged
  unfold Staged at hold ⊢
  rw [hstage,hids,hactive]
  cases hs : st.stage with
  | ready => trivial
  | dispatching S p =>
    rw [hs] at hold
    exact ⟨hm.drawn S hold.1,fun ha => hm.handed h hsound hold.1 (hold.2 ha)⟩
  | retiring p | joining p =>
    rw [hs] at hold
    exact hold

theorem Moves.request (hsound : st'.tables.Sound (fun _ => True)) {c : ℤ}
    (hc : SameCounts (st.clients c) (st'.clients c)) {request : Msg} (hr : st.Request c request) :
    st'.Request c request := by
  refine ⟨hr.type,hr.clientId,hr.length,by rw [hc.syncCount]; exact hr.count,
    hr.drawn.imp id (hm.drawn _),fun ha => ?_,?_⟩
  all_goals rw [hc.syncing,hc.syncCount,hc.serverIdentifier]
  · rcases hr.drawn with hnull | hdrawn
    · exact absurd (hnull ▸ ha) (null_inactive hsound)
    · obtain ⟨_,_,hl⟩ := hm.was_lives hsound hdrawn ha
      exact hr.active hl.2
  · exact hr.current

theorem Moves.works (h : st.Agreed) (hsound : st'.tables.Sound (fun _ => True))
    {taken' : List Parcel} (hline : st'.downLine taken' = st.downLine taken) {S : ℤ} {w : Worker}
    (hw : st.Works taken S w) : st'.Works taken' S w := by
  have hwas (ha : st'.tables.isThreadActive S = some true) :
      st.tables.isThreadActive S = some true := by
    obtain ⟨_,_,hl⟩ := hm.was_lives hsound hw.drawn ha
    exact hl.2
  refine ⟨hw.serverId,hm.drawn S hw.drawn,hw.booting,fun m hb hi => ?_,fun m hs ha => ?_,
    fun m hb hi => ?_,fun hst ha => ?_⟩
  · exact hm.handed h hsound hw.drawn (hw.busy m hb hi)
  · exact hm.handed h hsound hw.drawn (hw.signalled m hs (hwas ha))
  · have ha := hw.first m hb hi
    obtain ⟨a,_,hid⟩ := h.sound.owned S ha
    exact (hm.unadopted a S ⟨⟨hid,ha⟩,(hw.fresh (.inr hi) ha).1 a⟩).2
  · have hfresh := hw.fresh hst (hwas ha)
    exact ⟨fun c => by rw [hm.serverIdentifier]; exact hfresh.1 c,by rw [NoReply,hline]; exact hfresh.2⟩

theorem Moves.replies {taken' : List Parcel} (hline : st'.downLine taken' = st.downLine taken)
    (hcoming : ∀ c, (st'.coming c).Sublist (st.coming c))
    (hinbox : ∀ c, ∀ p ∈ (st'.clients c).inbox, p.msg.clientId = c ∧ p ∈ taken')
    (h : st.Replies taken) : st'.Replies taken' := by
  refine ⟨by rw [hline]; exact h.order,hinbox,?_,?_,?_,?_,?_⟩
  · rw [hline]
    exact fun p hp ht => hm.drawn _ (h.drawn p hp ht)
  · exact fun c p hp ht he => hm.fresh (h.echoes c p ((hcoming c).subset hp) ht he)
  · intro c p hp hw
    rw [hm.serverIdentifier]
    exact (h.wild c p ((hcoming c).subset hp) hw).imp hm.still_unadopted id
  · rw [hline]
    exact fun p hp ht => ⟨fun he => hm.fresh ((h.waiting p hp ht).1 he),
      fun he => hm.still_unadopted ((h.waiting p hp ht).2 he)⟩
  · intro c
    rw [hm.serverIdentifier]
    refine ((h.behind c).sublist (hcoming c)).imp_of_mem fun {y g} hy _ hyg hw hg ht hl =>
      hyg hw hg ht ?_
    have hpassed := h.coming_passed ((hcoming c).subset hy)
    exact hm.lives c _ hl (h.drawn y (List.mem_append_left _ hpassed) ht)

theorem Moves.agreed (h : st.Agreed) (hsound : st'.tables.Sound (fun _ => True))
    (hc : ∀ c, SameCounts (st.clients c) (st'.clients c))
    (hserved : ∀ m ∈ st.served, m ∈ st'.served)
    (hcounts : ∀ m ∈ st'.served, m.type = .handshake → m.count ≤ (st.clients m.clientId).syncCount)
    (hkeep : ∀ c, st'.Settled c → st.Lives c (st.clients c).serverIdentifier →
      st'.Lives c (st.clients c).serverIdentifier)
    (hstaged : st'.Staged) : st'.Agreed := by
  refine ⟨hsound,fun c hone hset => ?_,fun m hmem ht => ?_,fun c => ?_,fun c => ?_,fun c => ?_,
    fun c => ?_,fun c request hr => ?_,hstaged⟩
  · rw [hm.completed] at hone
    rw [hm.serverIdentifier]
    refine hkeep c hset (h.settled c hone fun m hmem hid ht => ?_)
    have hle := hset m (hserved m hmem) hid ht
    rwa [hm.completed] at hle
  · rw [(hc _).syncCount]
    exact hcounts m hmem ht
  · rw [hm.serverIdentifier]
    exact (h.adopted c).imp id (hm.drawn _)
  · rw [hm.completed,hm.serverIdentifier]
    exact h.never c
  · rw [(hc c).syncing,(hc c).syncCount]
    exact h.syncing c
  · rw [hm.serverIdentifier]
    intro ha
    rcases h.adopted c with hnull | hdrawn
    · exact absurd (hnull ▸ ha) (null_inactive hsound)
    · exact hm.same_client h hsound hdrawn (h.own c) ha
  · rw [(hc c).requests] at hr
    exact hm.request hsound (hc c) (h.requests c request hr)

end Moves

section Path

variable {path : Path Parcel} {more : List Parcel}

theorem downLine_evolves (hl : Path.Evolves id (fun _ _ => True) st.path path) (taken : List Parcel) :
    ∃ more, path.down .one = st.path.down .one ++ more ∧
      (∀ p ∈ more, p ∈ (st.downLine taken).waiting) ∧
        ∀ p ∈ (path.line .two taken).waiting, p ∈ (st.downLine taken).waiting := by
  have hmore : ∃ more, (path.line .two taken).passed = (st.downLine taken).passed ++ more ∧
      (∀ p ∈ more, p ∈ (st.downLine taken).waiting) ∧
        ∀ p ∈ (path.line .two taken).waiting, p ∈ (st.downLine taken).waiting := by
    rcases hl .two taken with he | hs
    · exact ⟨[],by rw [he,List.append_nil]; rfl,by simp,fun p hp => by rw [he] at hp; exact hp⟩
    · exact hs.moves
  obtain ⟨more,hp,hmem⟩ := hmore
  refine ⟨more,?_,hmem⟩
  have hp' : taken ++ path.down .one = taken ++ st.path.down .one ++ more := hp
  rw [List.append_assoc] at hp'
  exact List.append_cancel_left hp'

theorem Works.routed (hl : Path.Evolves id (fun _ _ => True) st.path path) {S : ℤ} {w : Worker}
    (h : st.Works taken S w) : Works { st with path := path } taken S w :=
  { h with fresh := fun hst ha => (h.fresh hst ha).imp id fun hno => hl.all (fun _ => id) hno }

theorem Replies.routed (hl : Path.Evolves id (fun _ _ => True) st.path path)
    (h : st.Replies taken) : Replies { st with path := path } taken := by
  obtain ⟨more,hdown,hmore,hwait⟩ := downLine_evolves hl taken
  have hcoming (c : ℤ) : coming { st with path := path } c =
      st.coming c ++ more.filter fun p => p.msg.clientId = c := by
    simp only [coming,hdown,List.filter_append,List.append_assoc]
  have hnew {c : ℤ} {p : Parcel} (hp : p ∈ more.filter fun p => p.msg.clientId = c) :
      p ∈ (st.downLine taken).waiting ∧ p.msg.clientId = c :=
    ⟨hmore p (List.mem_of_mem_filter hp),of_decide_eq_true (List.mem_filter.mp hp).2⟩
  refine ⟨?_,h.inbox,hl.all (fun _ => id) h.drawn,fun c p hp ht he => ?_,fun c p hp hw => ?_,
    fun p hp => h.waiting p (hwait p hp),fun c => ?_⟩
  · rcases hl .two taken with he | hs
    · rw [downLine,he]
      exact h.order
    · exact h.order.step (fun _ => rfl) (fun _ => trivial) hs
  · rw [hcoming] at hp
    rcases List.mem_append.mp hp with hp | hp
    · exact h.echoes c p hp ht he
    · obtain ⟨hmem,rfl⟩ := hnew hp
      exact (h.waiting p hmem ht).1 he
  · rw [hcoming] at hp
    rcases List.mem_append.mp hp with hp | hp
    · exact h.wild c p hp hw
    · obtain ⟨hmem,rfl⟩ := hnew hp
      exact .inl ((h.waiting p hmem hw.1).2 hw.2)
  · -- what passes the router is never a first reply of the id in use
    rw [hcoming]
    have hnone : ∀ g ∈ more.filter (fun p => p.msg.clientId = c), Wild g →
        g.msg.serverId ≠ (st.clients c).serverIdentifier := by
      intro g hg hw he
      obtain ⟨hmem,rfl⟩ := hnew hg
      exact ((h.waiting g hmem hw.1).2 hw.2).2 he.symm
    refine List.pairwise_append.mpr ⟨h.behind c,?_,fun y _ g hg hw he => absurd he (hnone g hg hw)⟩
    exact List.Pairwise.imp_of_mem (fun _ hg _ hw he => absurd he (hnone _ hg hw))
      (List.pairwise_of_forall (R := fun _ _ => True) fun _ _ => trivial)

theorem Replies.push (h : st.Replies taken) {p : Parcel}
    (hp : p.msg.type = .handshake → st.Drawn p.msg.serverId ∧
      (p.echo = true → st.Fresh p.msg.clientId p.msg.serverId p.msg.count) ∧
      (p.echo = false → st.Unadopted p.msg.clientId p.msg.serverId ∧
        st.NoReply taken p.msg.serverId)) :
    Replies { st with path := st.path.send .two p } taken := by
  have hline : downLine { st with path := st.path.send .two p } taken = (st.downLine taken).push p :=
    Path.line_send_self ..
  refine ⟨?_,h.inbox,?_,h.echoes,h.wild,?_,h.behind⟩
  · rw [hline]
    exact h.order.push fun y hy hw ht => ((hp hw.1).2.2 hw.2).2 y hy ht
  · rw [hline]
    exact h.drawn.push fun ht => (hp ht).1
  · rw [hline]
    intro q hq ht
    simp only [DelayLine.waiting,DelayLine.push,← List.append_assoc] at hq
    rcases List.mem_append.mp hq with hq | hq
    · exact h.waiting q hq ht
    · obtain rfl := List.mem_singleton.mp hq
      exact ⟨(hp ht).2.1,fun he => ((hp ht).2.2 he).1⟩

theorem Works.push {S : ℤ} {w : Worker} (h : st.Works taken S w) {p : Parcel}
    (hp : p.msg.type = .handshake → Starting w → p.msg.serverId ≠ S) :
    Works { st with path := st.path.send .two p } taken S w := by
  refine { h with fresh := fun hst ha => (h.fresh hst ha).imp id fun hno => ?_ }
  rw [NoReply,downLine,Path.line_send_self]
  exact hno.push fun ht => hp ht hst

end Path

theorem Inv.withPath (h : st.Inv) {path : Path Parcel} (hup : (path.line .one []).All st.FromClient)
    (hdown : ∃ taken, (∀ S w, st.workers S = some w → Works { st with path := path } taken S w) ∧
      Replies { st with path := path } taken) : Inv { st with path := path } := by
  have hm : Moves st { st with path := path } :=
    .of_tables (fun c => sameCounts_refl _) rfl rfl
  refine ⟨hm.agreed h.agreed h.agreed.sound (fun c => sameCounts_refl _) (fun _ => id)
    h.agreed.counts (fun _ _ => id) h.agreed.staged,hup,hdown⟩

end Network
end FtpOverUdp
