import FtpOverUdp.UdpClient.DownloadSafety
import FtpOverUdp.UdpServer.FileStore

namespace FtpOverUdp

open Library

namespace Download

variable {q : DownloadRequest} {st st' : Download} {disk : Disk} {P : Disk → Prop}

def ServedFrom (P : Disk → Prop) (_ : Download) (e : Event) : Prop := ∀ disk, e = .serve disk → P disk

-- what a message to the server's thread adds to what the requests have found so far
inductive Heard (q : DownloadRequest) (disk : Disk) (st st' : Download) : Prop
  | nothing (hreadings : st'.readings = st.readings) (hrefusals : st'.refusals = st.refusals)
  | file (contents : List UInt8) (hread : requested (requestMsg q) disk = some contents)
      (hreadings : st'.readings = st.readings ++ [contents]) (hrefusals : st'.refusals = st.refusals)
  | missing (hget : requestType q = .getFile) (hmissing : Missing disk (requestMsg q))
      (hreadings : st'.readings = st.readings)

theorem Turn.heard {r : ServerThread.Outcome} {p : DownloadParcel} {path : Path DownloadParcel}
    (hstate : st.server.currentState = .waitingForRequest) (hsender : st.server.sender.isSome)
    (h : Turn q st.server p.msg disk r) : Heard q disk st { st with
      server := r.1
      path := reply path r.2
      readings := if st.server.currentState = .waitingForRequest ∧ r.1.currentState = .sending
        then st.readings ++ (requested p.msg disk).toList else st.readings
      refusals := st.refusals + r.2.countP isRefusal } := by
  cases h with
  | quiet hsame =>
    subst hsame
    exact .nothing (by simp [hstate]) rfl
  | greeted reply hsame htype =>
    subst hsame
    exact .nothing (by simp [hstate]) (by simp [handshake_not_refusal htype])
  | refused reply _ _ hwaiting _ hmsg hget hmissing =>
    exact .missing hget (hmsg ▸ hmissing hsender) (by simp [hwaiting])
  | started contents _ _ hmsg hread _ _ _ hsending hout =>
    exact .file contents (hmsg ▸ hread) (by simp [hstate,hsending,hread]) (by simp [hout])

theorem Inv.heard (h : Inv q st) (hs : st.serve disk = some st') : Heard q disk st st' := by
  obtain ⟨p,path,r,htake,hrun,rfl⟩ := serve_turn hs
  obtain ⟨seen,taken,⟨hidle,hclient⟩ | ⟨contents,s,hserves,hclient⟩⟩ := h
  · have htold := ((hclient []).lines.take htake).2
    exact (run_waiting hidle.state htold hrun).heard hidle.state (by simp [hidle.sender])
  · have htold := (hclient.lines.take htake).2
    rcases hserves.state with ⟨_,hstate⟩ | hended
    · have hquiet : r.2 = [] := by
        simp only [ServerThread.run,hstate] at hrun
        split_ifs at hrun
        · obtain ⟨_,_,_,hout,_⟩ := dispatchToSender_spec hserves.sender hrun
          exact hout
        · exact Option.some.inj hrun ▸ rfl
      exact .nothing (by simp [hstate]) (by simp [hquiet])
    · exact (run_waiting hended.state htold hrun).heard hended.state (by simp [hserves.sender])

structure Found (q : DownloadRequest) (P : Disk → Prop) (st : Download) : Prop where
  readings : ∀ contents ∈ st.readings,
    ∃ disk, P disk ∧ requested (requestMsg q) disk = some contents
  refusals : 0 < st.refusals →
    requestType q = .getFile ∧ ∃ disk, P disk ∧ Missing disk (requestMsg q)

theorem Found.same (h : Found q P st) (hreadings : st'.readings = st.readings)
    (hrefusals : st'.refusals = st.refusals) : Found q P st' :=
  ⟨hreadings ▸ h.readings,hrefusals ▸ h.refusals⟩

theorem Found.heard (h : Found q P st) (hdisk : P disk) (hheard : Heard q disk st st') :
    Found q P st' := by
  cases hheard with
  | nothing hreadings hrefusals => exact h.same hreadings hrefusals
  | file contents hread hreadings hrefusals =>
    refine ⟨fun c hc => ?_,hrefusals ▸ h.refusals⟩
    rw [hreadings,List.mem_append,List.mem_singleton] at hc
    rcases hc with hc | rfl
    · exact h.readings c hc
    · exact ⟨disk,hdisk,hread⟩
  | missing hget hmissing hreadings =>
    exact ⟨hreadings ▸ h.readings,fun _ => ⟨hget,disk,hdisk,hmissing⟩⟩

theorem Found.aside (h : Found q P st) (hk : Aside q st st') : Found q P st' :=
  h.same hk.readings hk.refusals

theorem Inv.step_heard (h : Inv q st) {e : Event} (hs : (system q).step st e = some st') :
    Aside q st st' ∨ (∃ disk, e = .serve disk ∧ Heard q disk st st') ∨
      st'.readings = st.readings ∧ st'.refusals = st.refusals := by
  cases e with
  | request => exact .inl (aside_request hs)
  | attempt k fails =>
    obtain ⟨_,_,_,_,_,_,_,hreadings,hrefusals,_⟩ := attempt_spec hs
    exact .inr (.inr ⟨hreadings,hrefusals⟩)
  | route source isDelayed isDamage =>
    obtain ⟨path,_,rfl⟩ := Option.map_eq_some_iff.mp hs
    exact .inr (.inr ⟨rfl,rfl⟩)
  | idle => exact Option.some.inj hs ▸ .inr (.inr ⟨rfl,rfl⟩)
  | serve disk => exact .inr (.inl ⟨disk,rfl,h.heard hs⟩)
  | receive => exact .inl (aside_receive hs)
  | handle => exact .inl (aside_handle hs)
  | timeOut => exact .inl (aside_timeOut hs)

theorem reachable_spec (h : (system q).ReachableUnder (ServedFrom P) st) :
    Inv q st ∧ Found q P st := by
  refine (system q).reachableUnder_invariant (I := fun st => Inv q st ∧ Found q P st) ?_ ?_ h
  · intro st hinit
    refine ⟨inv_init hinit,fun c hc => ?_,fun hr => ?_⟩
    · rw [hinit.readings] at hc
      cases hc
    · rw [hinit.refusals] at hr
      exact absurd hr (lt_irrefl 0)
  · intro st e st' hinv hc hs
    refine ⟨hinv.1.step hs,?_⟩
    rcases hinv.1.step_heard hs with hk | ⟨disk,he,hheard⟩ | ⟨hreadings,hrefusals⟩
    · exact hinv.2.aside hk
    · exact hinv.2.heard (hc disk he) hheard
    · exact hinv.2.same hreadings hrefusals

-- what the client ends with is what the only transmission carried
theorem Inv.finished (h : Inv q st) {m : ℤ} {payload : Payload}
    (hphase : st.phase = .finished m payload) : ∃ contents s taken,
      Serves q contents st s taken ∧ contents ≠ [] ∧ payload = ⟨contents.length,contents⟩ ∧
        m = nextNumber q (eofNumber q contents) := by
  obtain ⟨seen,taken,⟨_,hclient⟩ | ⟨contents,s,hserves,hclient⟩⟩ := h
  · have hview := (hclient []).view
    rw [View,hphase] at hview
    exact absurd hview.1.2 (lt_irrefl 0)
  · have hview := hclient.view
    rw [View,hphase] at hview
    exact ⟨contents,s,taken,hserves,(hclient.fits hview.1.2).1,hview.2⟩

theorem Inv.refused (h : Inv q st) : (st.phase = .noSuchFile → 0 < st.refusals) ∧
    (st.phase = .uncaught → 0 < st.refusals ∧ q.operation = .list) ∧
    ∀ m what, st.phase = .catching m what → 0 < st.refusals := by
  obtain ⟨contents,n,seen,taken,hclient⟩ : ∃ contents n seen taken,
      Client q contents n st seen taken := by
    obtain ⟨seen,taken,⟨_,hclient⟩ | ⟨contents,s,_,hclient⟩⟩ := h
    · exact ⟨[],0,seen,taken,hclient []⟩
    · exact ⟨contents,_,seen,taken,hclient⟩
  have hview := hclient.view
  refine ⟨fun hphase => ?_,fun hphase => ?_,fun m what hphase => ?_⟩
  · rw [View,hphase] at hview
    exact hview
  · rw [View,hphase] at hview
    exact hview
  · rw [View,hphase] at hview
    exact hview.1

theorem requested_get {filename : List UInt8} (hget : q.operation = .get filename)
    (hfits : filename.length < filenameLength) (hname : 0 ∉ filename) (disk : Disk) :
    requested (requestMsg q) disk =
      (disk.findFirstFile (ServerThread.filesDirectory ++ filename)).bind readFile := by
  have htext : requestText q = filename := by rw [requestText,hget]
  have htype : (requestMsg q).type = .getFile := by
    simp only [requestMsg,SenderThread.create,requestType,hget]
  have hcut : filename.takeWhile (· ≠ 0) = filename := cStr_of_not_mem hname
  have hbuffer : (requestMsg q).buffer.copyOut (requestMsg q).length.toNat = filename := by
    simp only [requestMsg,SenderThread.create,htext,Int.toNat_natCast]
    exact Buffer.copyOut_copyIn (hfits.le.trans (by decide))
  simp only [requested,htype,ServerThread.getFileContents]
  rw [hbuffer,hcut]

def idleServer : ServerThread :=
  { ServerThread.create 5 with
    currentState := .waitingForRequest
    sender := some (Sender.create 5 9) }

def opening (q : DownloadRequest) : Download where
  phase := .receiving
  isAcked := false
  receiver := (Receiver.create 5 9).startNewPayload q.sequenceNumber.val
  server := idleServer
  path := Path.start
  readings := []
  refusals := 0

def flatDisk : Disk := FileSystem.flat.disk FileSystem.oneFile

-- a request that comes twice, the data and its acknowledgement, then the EOF and the end
def downloadEvents (disk : Disk) : List Event :=
  [.request,.request,.route .one false false,.route .one false false,.serve disk,.serve disk,
    .attempt 0 false,.route .two false false,.receive,.route .one false false,.serve disk,
    .attempt 1 false,.route .two false false,.receive,.route .one false false,.serve disk,.timeOut]

def refusalEvents (disk : Disk) : List Event :=
  [.request,.route .one false false,.serve disk,.route .two false false,.receive,.handle]

theorem init_opening (hids : q.serverIdentifier = 5 ∧ q.clientIdentifier = 9) :
    Init q (opening q) := by
  refine ⟨rfl,rfl,⟨Receiver.create 5 9,rfl⟩,rfl,hids.1.symm,?_,?_,rfl,rfl⟩
  · rw [hids.1,hids.2]
    rfl
  · intro peer p hp
    cases peer <;> cases hp

theorem reachableUnder_of_events {events : List Event}
    (hids : q.serverIdentifier = 5 ∧ q.clientIdentifier = 9)
    (hserved : ∀ e ∈ events, ∀ d, e = .serve d → P d)
    (h : (system q).run (opening q) events = some st) :
    (system q).ReachableUnder (ServedFrom P) st := by
  refine (system q).reachableUnder_of_run (init_opening hids) ?_ h
  exact (system q).along_of_forall (fun e he _ _ => hserved e he) _

theorem request_served_once (h : (system q).Reachable st) : st.readings.length ≤ 1 := by
  have hinv := (system q).reachable_invariant (fun _ => inv_init) (fun _ _ _ hi => hi.step) h
  obtain ⟨_,_,⟨hidle,_⟩ | ⟨contents,s,hserves,_⟩⟩ := hinv
  · simp [hidle.readings]
  · simp [hserves.readings]

theorem request_served_once_one_byte : ∃ st, (system ⟨.get [97],5,9,2⟩).Reachable st ∧
    st.readings = [[7]] ∧ st.readings.length ≤ 1 := by
  have hrun : ((system ⟨.get [97],5,9,2⟩).run (opening ⟨.get [97],5,9,2⟩)
      (downloadEvents flatDisk)).any (·.readings = [[7]]) = true := by decide
  obtain ⟨st,hst,hread⟩ := (Option.any_eq_true _ _).mp hrun
  have hr := (system _).reachable_of_run (init_opening ⟨rfl,rfl⟩) hst
  exact ⟨st,hr,of_decide_eq_true hread,request_served_once hr⟩

theorem get_writes_stored_file {filename : List UInt8} (hget : q.operation = .get filename)
    (hfits : filename.length < filenameLength) (hname : 0 ∉ filename)
    (h : (system q).ReachableUnder (ServedFrom P) st) {m : ℤ} {payload : Payload}
    (hphase : st.phase = .finished m payload) : ∃ disk stored, P disk ∧
      disk.findFirstFile (ServerThread.filesDirectory ++ filename) = some stored ∧
      readFile stored = some payload.data ∧ payload.length = payload.data.length := by
  obtain ⟨hinv,hfound⟩ := reachable_spec h
  obtain ⟨contents,s,taken,hserves,_,rfl,_⟩ := hinv.finished hphase
  obtain ⟨disk,hdisk,hread⟩ := hfound.readings contents (by simp [hserves.readings])
  rw [requested_get hget hfits hname] at hread
  obtain ⟨stored,hstored,hread⟩ := Option.bind_eq_some_iff.mp hread
  exact ⟨disk,stored,hdisk,hstored,hread,rfl⟩

theorem get_writes_stored_file_one_byte : ∃ st disk stored,
    (system ⟨.get [97],5,9,2⟩).ReachableUnder (ServedFrom (· = flatDisk)) st ∧
      st.phase = .finished 4 ⟨1,[7]⟩ ∧ disk = flatDisk ∧
      disk.findFirstFile (ServerThread.filesDirectory ++ [97]) = some stored ∧
      readFile stored = some [7] := by
  have hrun : ((system ⟨.get [97],5,9,2⟩).run (opening ⟨.get [97],5,9,2⟩)
      (downloadEvents flatDisk)).any (·.phase = .finished 4 ⟨1,[7]⟩) = true := by decide
  obtain ⟨st,hst,hphase⟩ := (Option.any_eq_true _ _).mp hrun
  have hr := reachableUnder_of_events (P := (· = flatDisk)) ⟨rfl,rfl⟩ (by simp [downloadEvents]) hst
  have hphase := of_decide_eq_true hphase
  obtain ⟨disk,stored,hdisk,hstored,hread,_⟩ :=
    get_writes_stored_file rfl (by decide) (by decide) hr hphase
  exact ⟨st,disk,stored,hr,hphase,hdisk,hstored,hread⟩

theorem missing_get {filename : List UInt8} (hget : q.operation = .get filename)
    (hfits : filename.length < filenameLength) (hname : 0 ∉ filename)
    (h : Missing disk (requestMsg q)) {stored : List UInt8}
    (hstored : disk.findFirstFile (ServerThread.filesDirectory ++ filename) = some stored) :
    2 ^ 31 - bufferLength < stored.length := by
  have hread := requested_get hget hfits hname disk
  rw [hstored,Option.bind_some] at hread
  cases hcontents : readFile stored with
  | none =>
    unfold readFile at hcontents
    split_ifs at hcontents with hsize
    rw [fileSize_eq] at hsize
    have hlow := Nat.mod_le stored.length (2 ^ 32)
    simp only [bufferLength]
    split_ifs at hsize
    · omega
    · omega
  | some contents =>
    have hlarge := h contents (hread.trans hcontents)
    have hlow := Nat.mod_le stored.length (2 ^ 32)
    have hlength := (readFile_length hcontents).1
    simp only [Sender.packetCount,bufferLength] at hlarge ⊢
    split_ifs at hlarge
    · omega
    · omega

theorem get_reports_missing_file {filename : List UInt8} (hget : q.operation = .get filename)
    (hfits : filename.length < filenameLength) (hname : 0 ∉ filename)
    (h : (system q).ReachableUnder (ServedFrom P) st) : st.phase ≠ .uncaught ∧
      (st.phase = .noSuchFile → ∃ disk, P disk ∧
        ∀ stored, disk.findFirstFile (ServerThread.filesDirectory ++ filename) = some stored →
          2 ^ 31 - bufferLength < stored.length) := by
  obtain ⟨hinv,hfound⟩ := reachable_spec h
  obtain ⟨hmissing,hescapes,_⟩ := hinv.refused
  refine ⟨fun hphase => ?_,fun hphase => ?_⟩
  · have hlist := (hescapes hphase).2
    rw [hget] at hlist
    cases hlist
  · obtain ⟨_,disk,hdisk,hgone⟩ := hfound.refusals (hmissing hphase)
    exact ⟨disk,hdisk,fun stored hstored => missing_get hget hfits hname hgone hstored⟩

theorem get_reports_missing_file_empty : ∃ st,
    (system ⟨.get [98],5,9,2⟩).ReachableUnder (ServedFrom (· = flatDisk)) st ∧
      st.phase = .noSuchFile ∧ ∃ disk, disk = flatDisk ∧
        ∀ stored, disk.findFirstFile (ServerThread.filesDirectory ++ [98]) = some stored →
          2 ^ 31 - bufferLength < stored.length := by
  have hrun : ((system ⟨.get [98],5,9,2⟩).run (opening ⟨.get [98],5,9,2⟩)
      (refusalEvents flatDisk)).any (·.phase = .noSuchFile) = true := by decide
  obtain ⟨st,hst,hphase⟩ := (Option.any_eq_true _ _).mp hrun
  have hr := reachableUnder_of_events (P := (· = flatDisk)) ⟨rfl,rfl⟩ (by simp [refusalEvents]) hst
  have hphase := of_decide_eq_true hphase
  exact ⟨st,hr,hphase,(get_reports_missing_file rfl (by decide) (by decide) hr).2 hphase⟩

theorem list_prints_directory (hlist : q.operation = .list)
    (h : (system q).ReachableUnder (ServedFrom P) st) :
    st.phase ≠ .noSuchFile ∧ st.phase ≠ .uncaught ∧
      ∀ m payload, st.phase = .finished m payload → ∃ disk, P disk ∧ disk.directory ≠ [] ∧
        (∀ name ∈ disk.directory, name.length < disk.heap.block filenameLength) ∧
        ((∀ name ∈ disk.directory, 0 ∉ name) → FtpClient.printContents payload.data =
          disk.directory.flatMap fun name => name.map .char ++ [.endl]) := by
  obtain ⟨hinv,hfound⟩ := reachable_spec h
  obtain ⟨hmissing,hescapes,_⟩ := hinv.refused
  have htype : requestType q = .getList := by rw [requestType,hlist]
  have hnone : ¬0 < st.refusals := fun hr => by
    have hget := (hfound.refusals hr).1
    rw [htype] at hget
    cases hget
  refine ⟨fun hphase => hnone (hmissing hphase),fun hphase => hnone (hescapes hphase).1,?_⟩
  intro m payload hphase
  obtain ⟨contents,s,taken,hserves,hne,rfl,_⟩ := hinv.finished hphase
  obtain ⟨disk,hdisk,hread⟩ := hfound.readings contents (by simp [hserves.readings])
  have hmsg : (requestMsg q).type = .getList := htype
  simp only [requested,hmsg] at hread
  obtain ⟨hfits,-,hpayload⟩ := ServerThread.getDirectoryContents_eq_some.mp hread
  refine ⟨disk,hdisk,fun hempty => ?_,hfits,fun hnames => ?_⟩
  · rw [hempty] at hpayload
    exact hne hpayload.symm
  · rw [← hpayload]
    exact FtpClient.printContents_contents hnames

theorem list_prints_directory_one_name : ∃ st m payload,
    (system ⟨.list,5,9,6⟩).ReachableUnder (ServedFrom (· = flatDisk)) st ∧
      st.phase = .finished m payload ∧
      FtpClient.printContents payload.data = [.char 97,.endl] := by
  have hrun : ((system ⟨.list,5,9,6⟩).run (opening ⟨.list,5,9,6⟩)
      (downloadEvents flatDisk)).any (·.phase = .finished 1 ⟨2,[97,0]⟩) = true := by decide
  obtain ⟨st,hst,hphase⟩ := (Option.any_eq_true _ _).mp hrun
  have hr := reachableUnder_of_events (P := (· = flatDisk)) ⟨rfl,rfl⟩ (by simp [downloadEvents]) hst
  have hphase := of_decide_eq_true hphase
  obtain ⟨disk,rfl,_,_,hprinted⟩ := (list_prints_directory rfl hr).2.2 _ _ hphase
  exact ⟨st,_,_,hr,hphase,hprinted (by decide)⟩

theorem wrap_nextNumber (q : DownloadRequest) (contents : List UInt8) :
    wrap (nextNumber q (eofNumber q contents)) =
      wrap (q.sequenceNumber.val + (transmission q contents).count + 1) := by
  have hwrap (i : ℤ) (h : 0 ≤ i) : wrap i = i % 7 := Int.tmod_eq_emod_of_nonneg h
  have heof : eofNumber q contents =
      ((q.sequenceNumber.val + (transmission q contents).count : ℕ) : ℤ) % 7 := rfl
  have hnext : wrap (eofNumber q contents + 1) =
      wrap (q.sequenceNumber.val + (transmission q contents).count + 1) := by
    rw [hwrap _ (by omega),hwrap _ (by omega)]
    omega
  unfold nextNumber
  split
  · rw [← hnext,hwrap (wrap _),hwrap (eofNumber q contents + 1) (by omega)]
    · omega
    · rw [hwrap _ (by omega)]
      omega
  · exact hnext

theorem download_numbers_agree (h : (system q).Reachable st) {m : ℤ} {payload : Payload}
    (hphase : st.phase = .finished m payload) : ∃ s, st.server.sender = some s ∧
      wrap m = s.finalSequenceNumber ∧
      (st.server.currentState = .waitingForRequest → st.server.sequenceNumber = wrap m) := by
  have hinv := (system q).reachable_invariant (fun _ => inv_init) (fun _ _ _ hi => hi.step) h
  obtain ⟨contents,s,taken,hserves,hne,_,hm⟩ := hinv.finished hphase
  have hcarries : s.sequenceSeed = q.sequenceNumber.val ∧
      s.numberOfPackets = (transmission q contents).count := by
    rcases hserves.engine with ⟨_,ht⟩ | ⟨he,_⟩
    · exact ⟨ht.running.window.carries.seed,ht.running.window.carries.count⟩
    · exact absurd he hne
  have hnumber : wrap m = s.finalSequenceNumber := by
    rw [hm,Sender.finalSequenceNumber,hcarries.1,hcarries.2]
    exact wrap_nextNumber q contents
  refine ⟨s,hserves.sender,hnumber,fun hstate => ?_⟩
  rcases hserves.state with ⟨_,hsending⟩ | hended
  · rw [hstate] at hsending
    cases hsending
  · exact hended.number.trans hnumber.symm

theorem download_numbers_agree_one_name : ∃ st s,
    (system ⟨.list,5,9,6⟩).Reachable st ∧ st.server.sender = some s ∧
      wrap 1 = s.finalSequenceNumber ∧
      (st.server.currentState = .waitingForRequest → st.server.sequenceNumber = wrap 1) := by
  have hrun : ((system ⟨.list,5,9,6⟩).run (opening ⟨.list,5,9,6⟩)
      (downloadEvents flatDisk)).any (·.phase = .finished 1 ⟨2,[97,0]⟩) = true := by decide
  obtain ⟨st,hst,hphase⟩ := (Option.any_eq_true _ _).mp hrun
  have hr := (system _).reachable_of_run (init_opening ⟨rfl,rfl⟩) hst
  obtain ⟨s,hs⟩ := download_numbers_agree hr (of_decide_eq_true hphase)
  exact ⟨st,s,hr,hs⟩

end Download
end FtpOverUdp
