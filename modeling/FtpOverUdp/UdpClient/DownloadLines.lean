import FtpOverUdp.Transfer.Stream
import FtpOverUdp.UdpClient.Download

namespace FtpOverUdp

open Library

namespace Download

open Transfer (Near Copies packets)

def transmission (q : DownloadRequest) (contents : List UInt8) : Transmission :=
  ⟨q.serverIdentifier,q.clientIdentifier,contents,q.sequenceNumber⟩

-- a message of the client, when the server has started `n` SenderThreads
structure Told (q : DownloadRequest) (isAcked : Bool) (n : ℕ) (p : DownloadParcel) : Prop where
  kind : p.msg.type = .handshake ∨ p.msg = requestMsg q ∧ p.acked = false ∨
    p.msg.type = .ack ∧ ∃ k : Slot, p.msg.sequenceNumber = k.val ∧
      (k = q.sequenceNumber → p.acked = true)
  acked : p.acked = true → isAcked = true ∧ 0 < n

def Refusal (q : DownloadRequest) (msg : Msg) : Prop :=
  msg.isText nsfText ∧ msg.sequenceNumber = wrap (q.sequenceNumber.val + 1)

-- a message of the server
structure Offered (q : DownloadRequest) (contents : List UInt8) (n refusals : ℕ) (p : DownloadParcel) :
    Prop where
  copies : Copies DownloadParcel.thread DownloadParcel.msg (transmission q contents) n p
  kind : p.thread = none → p.msg.type = .handshake ∨ Refusal q p.msg ∧ 0 < refusals

structure Lines (q : DownloadRequest) (contents : List UInt8) (n : ℕ) (path : Path DownloadParcel)
    (isAcked : Bool) (refusals : ℕ) (seen taken : List DownloadParcel) : Prop where
  requests : (path.line .one taken).Ordered DownloadParcel.acked (fun a b => a = true → b = true)
    fun _ => True
  told : (path.line .one taken).All (Told q isAcked n)
  copies : (path.line .two seen).Ordered DownloadParcel.thread Near fun _ => True
  offered : (path.line .two seen).All (Offered q contents n refusals)

variable {q : DownloadRequest} {contents : List UInt8} {n n' : ℕ} {path path' : Path DownloadParcel}
  {isAcked isAcked' : Bool} {refusals refusals' : ℕ} {seen taken : List DownloadParcel} {p : DownloadParcel}

theorem Told.mono (hacked : isAcked = true → isAcked' = true) (hn : n ≤ n')
    (h : Told q isAcked n p) : Told q isAcked' n' p :=
  ⟨h.kind,fun hp => ⟨hacked (h.acked hp).1,(h.acked hp).2.trans_le hn⟩⟩

theorem Offered.mono (hn : n ≤ n') (hr : refusals ≤ refusals')
    (h : Offered q contents n refusals p) : Offered q contents n' refusals' p :=
  ⟨h.copies.mono hn,fun hp => (h.kind hp).imp_right fun hk => ⟨hk.1,hk.2.trans_le hr⟩⟩

theorem Lines.mono (hacked : isAcked = true → isAcked' = true) (hn : n ≤ n')
    (hr : refusals ≤ refusals') (h : Lines q contents n path isAcked refusals seen taken) :
    Lines q contents n' path isAcked' refusals' seen taken :=
  ⟨h.requests,fun p hp => (h.told p hp).mono hacked hn,h.copies,
    fun p hp => (h.offered p hp).mono hn hr⟩

theorem Lines.evolves {admits : Peer → DownloadParcel → Prop}
    (h : Lines q contents n path isAcked refusals seen taken) (hl : path.Evolves id admits path') :
    Lines q contents n path' isAcked refusals seen taken := by
  refine ⟨?_,hl.all (fun _ hp => hp) h.told,?_,hl.all (fun _ hp => hp) h.offered⟩
  · rcases hl .one taken with he | hs
    · exact he ▸ h.requests
    · exact h.requests.step (fun _ => rfl) (fun _ => trivial) hs
  · rcases hl .two seen with he | hs
    · exact he ▸ h.copies
    · exact h.copies.step (fun _ => rfl) (fun _ => trivial) hs

theorem Lines.tell (h : Lines q contents n path isAcked refusals seen taken)
    (hp : Told q isAcked n p) (hacked : isAcked = true → p.acked = true) :
    Lines q contents n (path.send .one p) isAcked refusals seen taken := by
  refine ⟨?_,?_,?_,?_⟩
  · rw [Path.line_send_self]
    exact h.requests.push fun y hy hya => hacked ((h.told y hy).acked hya).1
  · rw [Path.line_send_self]
    exact h.told.push hp
  · rw [Path.line_send_other _ _ _ (by decide)]
    exact h.copies
  · rw [Path.line_send_other _ _ _ (by decide)]
    exact h.offered

theorem Lines.offer (h : Lines q contents n path isAcked refusals seen taken)
    (hp : Offered q contents n refusals p)
    (hnear : ∀ y ∈ (path.line .two seen).passed ++ (path.line .two seen).waiting,
      Near y.thread p.thread) :
    Lines q contents n (path.send .two p) isAcked refusals seen taken := by
  refine ⟨?_,?_,?_,?_⟩
  · rw [Path.line_send_other _ _ _ (by decide)]
    exact h.requests
  · rw [Path.line_send_other _ _ _ (by decide)]
    exact h.told
  · rw [Path.line_send_self]
    exact h.copies.push hnear
  · rw [Path.line_send_self]
    exact h.offered.push hp

theorem Lines.see (h : Lines q contents n path isAcked refusals seen taken)
    (htake : path.take .one = some (p,path')) :
    Lines q contents n path' isAcked refusals (seen ++ [p]) taken ∧
      Offered q contents n refusals p := by
  have hself : path'.line .two (seen ++ [p]) = path.line .two seen := Path.line_take_self htake
  have hother : path'.line .one taken = path.line .one taken := Path.line_take_other htake
  refine ⟨⟨hother ▸ h.requests,hother ▸ h.told,hself ▸ h.copies,hself ▸ h.offered⟩,?_⟩
  apply h.offered
  rw [← hself]
  simp [Path.line]

theorem Lines.take (h : Lines q contents n path isAcked refusals seen taken)
    (htake : path.take .two = some (p,path')) :
    Lines q contents n path' isAcked refusals seen (taken ++ [p]) ∧ Told q isAcked n p := by
  have hself : path'.line .one (taken ++ [p]) = path.line .one taken := Path.line_take_self htake
  have hother : path'.line .two seen = path.line .two seen := Path.line_take_other htake
  refine ⟨⟨hself ▸ h.requests,hself ▸ h.told,hother ▸ h.copies,hother ▸ h.offered⟩,?_⟩
  apply h.told
  rw [← hself]
  simp [Path.line]

theorem Lines.once (h : Lines q contents n path isAcked refusals (seen ++ [p]) taken) :
    OvertakenOnce Packet.thread Transfer.near Transfer.Late
      (packets DownloadParcel.thread DownloadParcel.msg (seen ++ [p])) :=
  Transfer.packets_once (h.copies.passed.of_append)

-- an acknowledged packet 0 and one more message have gone before: no request can follow them
theorem Lines.no_request (h : Lines q contents n path isAcked refusals seen (taken ++ [p]))
    {a : DownloadParcel} (ha : a ∈ taken) (hacked : a.acked = true) :
    ∀ r ∈ (path.line .one []).contents, r.acked = true := by
  intro r hr
  rcases List.mem_append.mp hr with hdown | hwait
  · by_contra hnot
    have hpassed := h.requests.passed
    simp only [Path.line,List.append_assoc,List.singleton_append] at hpassed
    exact hpassed.blocked ha (fun himp => hnot (himp hacked)) (by simpa [Path.line] using hdown)
  · exact h.requests.ahead a (by simp [Path.line,ha]) r hwait hacked

end Download
end FtpOverUdp
