import FtpOverUdp.UdpClient.RoutedUploadSafety

namespace FtpOverUdp

open Library

namespace RoutedUpload

open Origin (Near)

-- no acknowledgement of a message that the router has held is held again
def HeldOnce (st : RoutedUpload) : Event → Prop
  | .route source isDelayed _ => source = .two → st.path.router.fileBuf = none →
      isDelayed = true → ∀ ack rest, st.path.up source = ack :: rest → ack.delayed = false
  | _ => True

-- replies of this session cannot be followed by older ones
def Ages (a b : Origin) : Prop := a.current = true → b ≠ .past

structure Exact (q : UploadRequest) (st : RoutedUpload) (taken acked : List UploadParcel) :
    Prop where
  inv : Inv q st taken acked
  answers : (st.path.line .two acked).Bounded number Near Late
  flagged : st.phase ≠ .requesting → ∀ i : ℕ, st.sender.flag (st.base + i) = true →
    ∃ p ∈ acked, number p = some i
  aged : (st.path.line .two acked).Ordered UploadParcel.origin Ages Late
  concluded : ∀ m, st.phase = .uploaded m → st.saves ≠ []

variable {q : UploadRequest} {st st' : RoutedUpload} {taken acked : List UploadParcel}
  {p : UploadParcel} {path : Path UploadParcel} {s : Sender}

theorem number_once {l : List UploadParcel}
    (h : OvertakenOnce UploadParcel.origin Origin.Follows Late l) :
    OvertakenOnce number Near Late l := by
  have hmap : OvertakenOnce number Near Late (l.filterMap some) := by
    refine h.filterMap some (fun a b a' b' ha hb hfollows => ?_) fun a a' ha hlate => ?_
    · obtain rfl := Option.some.inj ha
      obtain rfl := Option.some.inj hb
      exact hfollows.near
    · exact Option.some.inj ha ▸ hlate
  rwa [List.filterMap_some] at hmap

theorem current_of_number {i : ℕ} (h : number p = some i) : p.origin.current = true := by
  cases horigin : p.origin with
  | handshake | past | other =>
    rw [number,horigin] at h
    cases h
  | request | packet => rfl

theorem near_of_not_current (h : p.origin.current = false) (b : Option ℕ) :
    Near (number p) b := by
  intro i hi
  cases horigin : p.origin with
  | handshake | past | other =>
    rw [number,horigin] at hi
    cases hi
  | request | packet =>
    rw [horigin] at h
    cases h

theorem ages_of_not_past {b : Origin} (h : b ≠ .past) (a : Origin) : Ages a b := fun _ => h

theorem exact_init (h : Init q st) : Exact q st [] [] := by
  have hidle : ∀ p ∈ (st.path.line .two []).contents, p.origin.current = false :=
    fun p hp => (h.path .two p hp).not_current
  refine ⟨inv_init h,?_,?_,?_,?_⟩
  · exact DelayLine.bounded_of_all (fun y hy _ _ => near_of_not_current (hidle y hy) _)
      fun y hy => h.held .two y hy
  · exact fun hne => absurd h.phase hne
  · refine DelayLine.ordered_of_all (fun y hy _ _ hcurrent => ?_) fun y hy => h.held .two y hy
    rw [hidle y hy] at hcurrent
    cases hcurrent
  · intro m hm
    rw [h.phase] at hm
    cases hm

theorem Exact.quiet (h : Exact q st taken acked) (hinv : Inv q st' taken acked)
    (hpath : st'.path = st.path ∨ ∃ new, st'.path = st.path.send .one new)
    (hbase : st'.base = st.base) (hphase : st'.phase = st.phase) (hsaves : st'.saves = st.saves)
    (hflag : ∀ j, st'.sender.flag j = st.sender.flag j) : Exact q st' taken acked := by
  have hline : st'.path.line .two acked = st.path.line .two acked := by
    rcases hpath with he | ⟨new,he⟩
    · rw [he]
    · rw [he,Path.line_send_other _ _ _ (by decide)]
  refine ⟨hinv,hline ▸ h.answers,fun hne i hi => ?_,hline ▸ h.aged,
    fun m hm => hsaves ▸ h.concluded m (hphase ▸ hm)⟩
  rw [hphase] at hne
  rw [hflag,hbase] at hi
  exact h.flagged hne i hi

theorem Exact.evolves {admits : Peer → UploadParcel → Prop} (h : Exact q st taken acked)
    (hl : st.path.Evolves UploadParcel.mark admits path) (hadm : ∀ p, admits .two p → ¬Late p) :
    Exact q { st with path := path } taken acked := by
  refine ⟨h.inv.evolves hl,?_,h.flagged,?_,h.concluded⟩
  · rcases hl .two acked with he | hstep
    · exact he ▸ h.answers
    · refine h.answers.step ?_ ?_ hadm hstep
      all_goals exact fun _ => rfl
  · rcases hl .two acked with he | hstep
    · exact he ▸ h.aged
    · refine h.aged.step ?_ ?_ hstep
      all_goals exact fun _ => rfl

theorem Exact.request (h : Exact q st taken acked) (hs : RoutedUpload.request q st = some st') :
    Exact q st' taken acked := by
  have hinv := h.inv.request hs
  unfold RoutedUpload.request at hs
  split_ifs at hs
  obtain rfl := Option.some.inj hs
  exact h.quiet hinv (.inr ⟨_,rfl⟩) rfl rfl rfl fun _ => rfl

theorem Exact.attempt (h : Exact q st taken acked) {k : ℕ} {fails : Bool}
    (hs : st.attempt k fails = some st') : Exact q st' taken acked := by
  have hinv := h.inv.attempt hs
  obtain ⟨s,a,ha,hcase⟩ := attempt_spec hs
  have hflag : ∀ j, s.flag j = st.sender.flag j := by
    obtain ⟨t,_,⟨_,_,rfl⟩ | ⟨_,rfl⟩⟩ := Sender.attempt_cases ha
    · exact fun _ => rfl
    · exact Sender.flag_stopThread st.sender k
  rcases hcase with ⟨msg,_,rfl⟩ | ⟨_,rfl⟩
  · exact h.quiet hinv (.inr ⟨_,rfl⟩) rfl rfl rfl hflag
  · exact h.quiet hinv (.inl rfl) rfl rfl rfl hflag

-- what carries no number and is not older straggles behind nothing
theorem Exact.other (h : Exact q st taken acked) {source : Peer} {msg : Msg}
    (hs : RoutedUpload.other q st source msg = some st') : Exact q st' taken acked := by
  have hinv := h.inv.other hs
  unfold RoutedUpload.other at hs
  split_ifs at hs
  obtain rfl := Option.some.inj hs
  cases source with
  | one => exact h.quiet hinv (.inr ⟨_,rfl⟩) rfl rfl rfl fun _ => rfl
  | two =>
    refine ⟨hinv,?_,h.flagged,?_,h.concluded⟩
    · rw [Path.line_send_self]
      exact h.answers.push (.inl fun _ _ i _ j hj => by cases hj)
    · rw [Path.line_send_self]
      exact h.aged.push fun y _ _ hc => by cases hc

theorem Exact.serve (h : Exact q st taken acked) {disk : Disk}
    (hs : RoutedUpload.serve q st disk = some st') : ∃ p, Exact q st' (taken ++ [p]) acked := by
  obtain ⟨p,hserved⟩ := h.inv.serve hs
  obtain ⟨path,htake,hreplied⟩ := hserved.replied
  obtain ⟨_,hother,htold,honce⟩ := h.inv.take htake
  have hanswers : (path.line .two acked).Bounded number Near Late := hother ▸ h.answers
  have haged : (path.line .two acked).Ordered UploadParcel.origin Ages Late := hother ▸ h.aged
  refine ⟨p,hserved.inv,?_,?_,?_,fun m hm => hserved.saves (h.concluded m (hserved.phase ▸ hm))⟩
  · cases hreplied with
    | silent hpath => exact hpath ▸ hanswers
    | answered reply hpath _ =>
      rw [hpath,Path.line_send_self]
      refine hanswers.push ?_
      have hstraggles : Straggles number Near Late {k | ∃ y ∈ taken, number y = k} p :=
        (number_once honce).straggles
      refine hstraggles.grow ?_
      rintro _ ⟨y,hy,rfl⟩
      rw [hother] at hy
      cases hcurrent : y.origin.current with
      | false => exact .inr (near_of_not_current hcurrent _)
      | true =>
        obtain ⟨r,hr,hry⟩ := h.inv.source y hy hcurrent
        exact .inl ⟨r,hr,by rw [number,hry]⟩
  · rw [hserved.phase,hserved.sender,hserved.base]
    exact h.flagged
  · cases hreplied with
    | silent hpath => exact hpath ▸ haged
    | answered reply hpath _ =>
      rw [hpath,Path.line_send_self]
      refine haged.push fun y _ => ages_of_not_past (fun hpast => ?_) y.origin
      simp only [Told,show p.origin = .past from hpast] at htold

-- two packets just below the window are acknowledged, and only one can be the exception
theorem Exact.number_ge (h : Exact q st taken acked)
    (hphase : st.phase ≠ .requesting) (htransmits : st.sender.Transmits q.transmission st.base)
    (htake : st.path.take .one = some (p,path)) {t : ℕ} (ht : number p = some t) :
    st.sender.currentWindowOrigin ≤ t + windowSize + 1 := by
  have hin : p ∈ st.path.down .one := by
    rw [(Path.take_spec htake).1]
    exact List.mem_cons_self
  have hstraggles : Straggles number Near Late {k | ∃ y ∈ acked, number y = k} p :=
    h.answers.straggles rfl (List.mem_append_left _ hin)
  by_contra hlt
  simp only [windowSize] at hlt
  have hacked : ∀ i < st.sender.currentWindowOrigin, ∃ y ∈ acked, number y = some i :=
    fun i hi => h.flagged hphase i (htransmits.running.window.past i hi)
  have h1 := hacked (st.sender.currentWindowOrigin - 1) (by omega)
  have h2 := hacked (st.sender.currentWindowOrigin - 2) (by omega)
  have hnear : ∀ i, Near (some i) (number p) → i < t + windowSize := fun i hi => hi i rfl t ht
  simp only [windowSize] at hnear
  rcases hstraggles with hall | ⟨_,e,hall⟩
  · have := hnear _ (hall _ h1)
    omega
  · rcases hall _ h1 with hn1 | hn1
    · have := hnear _ hn1
      omega
    · rcases hall _ h2 with hn2 | hn2
      · have := hnear _ hn2
        omega
      · have := Option.some.inj (hn1.trans hn2.symm)
        omega

theorem Exact.number_spec (h : Exact q st taken acked)
    (htake : st.path.take .one = some (p,path)) (hcurrent : p.origin.current = true) :
    ∃ t, number p = some t ∧ p.msg.sequenceNumber = (residue q.transmission.seed t).val ∧
      (t = 0 ∨ t < st.started) ∧ (t = q.transmission.count → t ≠ 0 → st.saves ≠ []) := by
  obtain ⟨_,_,hanswered,hsource⟩ := h.inv.read htake
  rcases Origin.current_cases hcurrent with horigin | ⟨k,horigin⟩
  · simp only [Answered,horigin] at hanswered
    rw [← residue_zero q.transmission.seed] at hanswered
    exact ⟨0,by rw [number,horigin]; rfl,hanswered,.inl rfl,fun _ hc => absurd rfl hc⟩
  · simp only [Answered,horigin] at hanswered
    obtain ⟨r,hr,hrp⟩ := hsource hcurrent
    have htold := h.inv.told r (by simp [Path.line,hr])
    simp only [Told,hrp,horigin] at htold
    exact ⟨k,by rw [number,horigin]; rfl,hanswered.1,.inr htold.1,fun hk _ => hanswered.2 hk.ge⟩

theorem Exact.begin (h : Exact q st taken acked) (hne : q.transmission.contents ≠ [])
    (htake : st.path.take .one = some (p,path)) (hphase : st.phase = .requesting)
    (hinv : Inv q st' taken (acked ++ [p]))
    (hs : { st with path := path }.beginSending q = some st') :
    Exact q st' taken (acked ++ [p]) := by
  obtain ⟨hself,_,_,_⟩ := h.inv.read htake
  obtain ⟨s,hstart,rfl⟩ := beginSending_spec hs
  refine ⟨hinv,hself ▸ h.answers,fun _ i hi => ?_,hself ▸ h.aged,fun m hm => (by cases hm)⟩
  have hfeeds := h.inv.feeds
  rw [Feeds,hphase] at hfeeds
  rw [hfeeds.2.2.2] at hi
  obtain ⟨s₁,h₁,h₂⟩ := Sender.startTransmission_spec hstart
  have hnew := (Sender.Running.start hne h₁ h₂).2.2.1 i
  rw [hnew] at hi
  cases hi

theorem Exact.acknowledge (h : Exact q st taken acked) (hne : q.transmission.contents ≠ [])
    (htake : st.path.take .one = some (p,path)) (hphase : st.phase = .sending)
    (hcurrent : p.origin.current = true) (hinv : Inv q st' taken (acked ++ [p]))
    (hs : { st with path := path }.takeAck p.msg = some st') :
    Exact q st' taken (acked ++ [p]) := by
  obtain ⟨hself,_,_,_⟩ := h.inv.read htake
  have hsending : st.phase ≠ .requesting := by
    rw [hphase]
    exact fun hc => by cases hc
  obtain ⟨t,ht,hnumber,hbound,hsaves⟩ := h.number_spec htake hcurrent
  obtain ⟨s,hack,rfl⟩ := takeAck_spec hs
  have hfeeds := h.inv.feeds
  rw [Feeds,hphase] at hfeeds
  obtain ⟨hsends,hopen⟩ := hfeeds
  obtain ⟨_,k,hk,hflag⟩ := hsends.ack hopen hack
  obtain ⟨_,htransmits⟩ : q.transmission.contents.length < 2 ^ 31 ∧
      st.sender.Transmits q.transmission st.base := by
    rcases hsends.engine with ⟨_,ht⟩ | ⟨he,_⟩
    · exact ht
    · exact absurd he hne
  have hkt : k = residue q.transmission.seed t := Fin.ext (by exact_mod_cast hk.symm.trans hnumber)
  have hreach := h.number_ge hsending htransmits htake ht
  have hrunning := htransmits.running
  have hspan := q.transmission.span_le _ hrunning.le
  have hstarted : st.started = q.transmission.span st.sender.currentWindowOrigin := by
    rw [started,hrunning.window.length,Nat.add_sub_cancel_left]
  rw [hstarted] at hbound
  refine ⟨hinv,hself ▸ h.answers,fun _ i hi => ?_,hself ▸ h.aged,fun m hm => ?_⟩
  · rcases hflag _ hi with hold | hnew
    · obtain ⟨y,hy,hyi⟩ := h.flagged hsending i hold
      exact ⟨y,List.mem_append_left _ hy,hyi⟩
    · obtain ⟨j,hge,hlt,hj,hij⟩ := (hrunning.window.state _ _).mp hnew
      obtain rfl := Nat.add_left_cancel hij
      refine ⟨p,by simp,ht.trans (congrArg some ?_)⟩
      rw [hkt,residue_eq_iff] at hj
      simp only [sequenceRange,windowSize] at *
      omega
  · have hc : s.isComplete = true := by
      by_contra hc
      have hm : (if s.isPayloadSent then UploadPhase.uploaded s.finalSequenceNumber else st.phase) =
          .uploaded m := hm
      have hopen' : s.isPayloadSent = false := Bool.eq_false_iff.mpr hc
      rw [hopen',if_neg Bool.false_ne_true,hphase] at hm
      cases hm
    rw [hk] at hack
    rw [hrunning.processAck_isComplete hne hack,hopen] at hc
    split_ifs at hc with heof
    -- within four of the origin only the EOF itself carries its number
    have hpos := (q.transmission.count_bounds hne).1
    have hcount : t = q.transmission.count := by
      have hk' := of_decide_eq_true hc
      rw [hkt,residue_eq_iff] at hk'
      simp only [sequenceRange,windowSize] at *
      omega
    exact hsaves hcount (by omega)

theorem Exact.receive (h : Exact q st taken acked) (hne : q.transmission.contents ≠ [])
    (hs : st.receive q = some st') : ∃ p, Exact q st' taken (acked ++ [p]) := by
  obtain ⟨p,path,htake,hreading⟩ := receive_spec hs
  obtain ⟨hself,_,hanswered,_⟩ := h.inv.read htake
  refine ⟨p,?_⟩
  cases hreading with
  | ignored he =>
    have hinv : Inv q { st with path := path } taken (acked ++ [p]) :=
      h.inv.readers htake h.inv.feeds le_rfl id fun hw => hw.phase
    rw [he]
    refine ⟨hinv,hself ▸ h.answers,fun hnot i hi => ?_,hself ▸ h.aged,h.concluded⟩
    obtain ⟨y,hy,hyi⟩ := h.flagged hnot i hi
    exact ⟨y,List.mem_append_left _ hy,hyi⟩
  | begins hphase hown htype hserver hbegin =>
    have hcurrent := hanswered.current hown htype hserver
    exact h.begin hne htake hphase (h.inv.begin htake hphase hcurrent hbegin) hbegin
  | acknowledges hphase hown htype hserver htakes =>
    have hcurrent := hanswered.current hown htype hserver
    exact h.acknowledge hne htake hphase hcurrent (h.inv.acknowledge htake hphase htakes) htakes

theorem Exact.step (h : Exact q st taken acked) (hne : q.transmission.contents ≠ []) {e : Event}
    (hheld : HeldOnce st e) (hs : (system q).step st e = some st') :
    ∃ taken' acked', Exact q st' taken' acked' := by
  cases e with
  | request => exact ⟨taken,acked,h.request hs⟩
  | attempt k fails => exact ⟨taken,acked,h.attempt hs⟩
  | other source msg => exact ⟨taken,acked,h.other hs⟩
  | route source isDelayed isDamage =>
    obtain ⟨path,hp,rfl⟩ := Option.map_eq_some_iff.mp hs
    have hl : Path.Evolves UploadParcel.mark (fun origin p => origin = .two → ¬Late p) st.path
        path := Path.evolves_route hp fun ack rest hup hbuf hdel hpeer => by
      simp [hheld hpeer hbuf hdel ack rest hup]
    exact ⟨taken,acked,h.evolves hl fun p hp => hp rfl⟩
  | idle =>
    obtain rfl := Option.some.inj hs
    exact ⟨taken,acked,h.evolves
      (Path.evolves_idle UploadParcel.mark (fun _ p => ¬Late p) st.path) fun _ hp => hp⟩
  | serve disk =>
    obtain ⟨p,hexact⟩ := h.serve hs
    exact ⟨taken ++ [p],acked,hexact⟩
  | receive =>
    obtain ⟨p,hexact⟩ := h.receive hne hs
    exact ⟨taken,acked ++ [p],hexact⟩

theorem exact_reachable (hne : q.transmission.contents ≠ [])
    (h : (system q).ReachableUnder HeldOnce st) : ∃ taken acked, Exact q st taken acked :=
  (system q).reachableUnder_invariant (I := fun st => ∃ taken acked, Exact q st taken acked)
    (fun _ hinit => ⟨[],[],exact_init hinit⟩)
    (fun _ _ _ ⟨_,_,hi⟩ hc hs => hi.step hne hc hs) h

theorem Sends.complete {base : ℕ} (h : Sends q base s) (hne : q.transmission.contents ≠ [])
    (hc : s.isComplete = true) : s.threads.length = base + (q.transmission.count + 1) ∧
      ∀ j < s.threads.length, s.flag j = true := by
  have htransmits : s.Transmits q.transmission base := by
    rcases h.engine with ⟨_,_,ht⟩ | ⟨he,_⟩
    · exact ht
    · exact absurd he hne
  have horigin := htransmits.sent hc
  have hwindow := htransmits.running.window
  have hlength := hwindow.length
  rw [horigin,Transmission.span,if_neg (lt_irrefl _)] at hlength
  refine ⟨hlength,fun j hj => ?_⟩
  rcases Nat.lt_or_ge j base with hold | hge
  · exact h.old j hold
  · obtain ⟨i,rfl⟩ := Nat.exists_eq_add_of_le hge
    rcases Nat.lt_or_ge i q.transmission.count with hlt | hge'
    · exact hwindow.past i (horigin ▸ hlt)
    · obtain rfl : i = q.transmission.count := by omega
      exact (htransmits.eof horigin).trans hc

theorem Sends.all_acked {base : ℕ} (h : Sends q base s) (hne : q.transmission.contents ≠ [])
    (hc : s.isComplete = true) : ∀ t ∈ s.threads, t.isAcked = true := by
  intro t ht
  obtain ⟨j,hj,rfl⟩ := List.getElem_of_mem ht
  have hflag := (h.complete hne hc).2 j hj
  rw [Sender.flag,List.getElem?_eq_getElem hj] at hflag
  exact hflag

theorem Sends.ids {base : ℕ} (h : Sends q base s) (hne : q.transmission.contents ≠ []) :
    s.serverId = q.transmission.serverId ∧ s.clientId = q.transmission.clientId := by
  rcases h.engine with ⟨_,_,ht⟩ | ⟨he,_⟩
  · have hcarries := ht.running.window.carries
    exact ⟨hcarries.serverId,hcarries.clientId⟩
  · exact absurd he hne

-- what holds once `performUpload` has returned
structure Returned (q : UploadRequest) (st : RoutedUpload) (m : ℤ) : Prop where
  saved : Saved q st
  sends : Sends q st.base st.sender
  complete : st.sender.isComplete = true
  number : m = wrap (q.transmission.seed.val + q.transmission.count + 1)
  greeted : ∀ p ∈ (st.path.line .one []).contents, p.origin ≠ .handshake
  aged : ∀ p ∈ (st.path.line .two []).contents, p.origin ≠ .past

-- packet 0 and the EOF have both been taken, and no third message is passed by one that is held
theorem not_after_two {R : Origin → Origin → Prop} {peer : Peer} {l : List UploadParcel}
    (h : (st.path.line peer l).Ordered UploadParcel.origin R Late) {i j : ℕ} (hij : i ≠ j)
    (hi : ∃ y ∈ l, number y = some i) (hj : ∃ y ∈ l, number y = some j) {o : Origin}
    (hR : ∀ a : Origin, a.current = true → ¬R a o) :
    ∀ p ∈ (st.path.line peer []).contents, p.origin ≠ o := by
  obtain ⟨a,ha,hai⟩ := hi
  obtain ⟨b,hb,hbj⟩ := hj
  intro p hp hpo
  refine h.blocked_of_two rfl ha hb ?_ (hpo ▸ hR _ (current_of_number hai))
    (hpo ▸ hR _ (current_of_number hbj)) hp
  rintro rfl
  exact hij (Option.some.inj (hai.symm.trans hbj))

theorem Exact.returned (h : Exact q st taken acked) (hne : q.transmission.contents ≠ []) {m : ℤ}
    (hphase : st.phase = .uploaded m) : Returned q st m := by
  have hfeeds := h.inv.feeds
  rw [Feeds,hphase] at hfeeds
  obtain ⟨hsends,hc,hm⟩ := hfeeds
  have hsaves := h.concluded m hphase
  have hsaved : Saved q st := by
    cases h.inv.stage with
    | waits hw => exact absurd hw.saves hsaves
    | receives hr => exact absurd hr.saves hsaves
    | saved hd => exact hd
  obtain ⟨hlength,hflag⟩ := hsends.complete hne hc
  have hpos := (q.transmission.count_bounds hne).1
  have hacked : ∀ i ≤ q.transmission.count, ∃ y ∈ acked, number y = some i :=
    fun i hi => h.flagged hsaved.begun i (hflag _ (by omega))
  have htaken : ∀ i ≤ q.transmission.count, ∃ y ∈ taken, number y = some i := by
    intro i hi
    obtain ⟨y,hy,hnumber⟩ := hacked i hi
    obtain ⟨r,hr,horigin⟩ := h.inv.source y (by simp [Path.line,hy]) (current_of_number hnumber)
    exact ⟨r,hr,by rw [number,horigin]; exact hnumber⟩
  refine ⟨hsaved,hsends,hc,?_,?_,?_⟩
  · rcases hsends.engine with ⟨_,_,ht⟩ | ⟨he,_⟩
    · have hcarries := ht.running.window.carries
      rw [hm,Sender.finalSequenceNumber,hcarries.seed,hcarries.count]
    · exact absurd he hne
  · exact not_after_two h.inv.sent hpos.ne (htaken 0 hpos.le) (htaken _ le_rfl)
      fun _ hcurrent hfollows => hfollows.greeted hcurrent rfl
  · exact not_after_two h.aged hpos.ne (hacked 0 hpos.le) (hacked _ le_rfl)
      fun _ hcurrent hages => hages hcurrent rfl

theorem uploaded_is_saved (hne : q.transmission.contents ≠ [])
    (hfits : q.filename.length ≤ bufferLength) (h : (system q).ReachableUnder HeldOnce st) {m : ℤ}
    (hphase : st.phase = .uploaded m) :
    st.saves = [(q.filename,⟨q.transmission.contents.length,q.transmission.contents⟩)] ∧
      st.server.currentState = .waitingForRequest ∧ st.server.sequenceNumber = m ∧
      ∀ t ∈ st.sender.threads, t.isAcked = true := by
  obtain ⟨taken,acked,hexact⟩ := exact_reachable hne h
  have hreturned := hexact.returned hne hphase
  refine ⟨requestMsg_filename hfits ▸ hreturned.saved.saves,hreturned.saved.state,?_,
    hreturned.sends.all_acked hne hreturned.complete⟩
  exact hreturned.saved.number.trans hreturned.number.symm

theorem uploaded_is_saved_one_byte : ∃ st,
    (system oneByteRequest).ReachableUnder HeldOnce st ∧ st.phase = .uploaded 4 ∧
      st.saves = [([97],⟨1,[65]⟩)] := by
  have hrun : ((system oneByteRequest).run oneByteOpening
      (oneByteEvents ++ [.route .two false false,.receive])).any
        (fun st => st.phase = .uploaded 4) = true := by decide
  obtain ⟨st,hst,hphase⟩ := (Option.any_eq_true _ _).mp hrun
  have hheld : ∀ e ∈ oneByteEvents ++ [.route .two false false,.receive],
      ∀ st, HeldOnce st e := by
    simp [oneByteEvents,HeldOnce]
  have hr := (system oneByteRequest).reachableUnder_of_run init_oneByteOpening
    ((system oneByteRequest).along_of_forall (fun e he st _ => hheld e he st) _) hst
  have hphase := of_decide_eq_true hphase
  exact ⟨st,hr,hphase,(uploaded_is_saved (by decide) (by decide) hr hphase).1⟩

end RoutedUpload
end FtpOverUdp
