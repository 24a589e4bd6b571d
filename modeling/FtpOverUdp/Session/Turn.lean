import FtpOverUdp.Session.ServerSteps

namespace FtpOverUdp

open Library

namespace Network

-- the events of one turn of the server's loop in which no other step falls, and the id it draws
inductive Turn : List Event → ℤ → Prop
  | discarded (drawn : ℤ) : Turn [.receive drawn] drawn
  | dispatched (drawn : ℤ) : Turn [.receive drawn,.dispatch] drawn
  | restarted (unused drawn : ℤ) : Turn [.receive unused,.retire,.respawn drawn] drawn
  | handedOn (unused drawn : ℤ) : Turn [.receive unused,.retire,.respawn drawn,.dispatch] drawn

variable {st st' mid : Network} {p : Parcel} {drawn target : ℤ}

theorem handOver_tables {S : ℤ} {stage : DispatcherStage}
    (hs : st.handOver S p stage = some st') :
    st'.tables = st.tables.dispatchMessage S p.msg ∧ st'.stage = stage := by
  obtain ⟨w,-,hs⟩ := Option.bind_eq_some_iff.mp hs
  obtain ⟨w',-,rfl⟩ := Option.map_eq_some_iff.mp hs
  exact ⟨rfl,rfl⟩

theorem receive_getServerId (hs : st.receive drawn = some st') :
    ∃ p path, st.Receives p path st' ∧
      ((∃ target, st.tables.getServerId drawn p.msg = some (st'.tables,target) ∧
          st'.stage = next target p) ∨
        (p.msg.type = .handshake ∧ st.tables.clientIds p.msg.clientId = some p.msg.serverId) ∧
          st'.tables = st.tables.deactivate p.msg.clientId p.msg.serverId ∧
          st'.stage = .retiring p) := by
  obtain ⟨p,path,hr,⟨hnew,hreg,-,hstage⟩ | ⟨hre,htables,-,hstage⟩ |
    ⟨current,hcur,hre,htables,-,hstage⟩⟩ := receive_cases hs
  · refine ⟨p,path,hr,.inl ⟨_,?_,hstage⟩⟩
    simp only [FtpServer.getServerId,hnew,hreg,Option.map_some]
  · exact ⟨p,path,hr,.inr ⟨hre,htables,hstage⟩⟩
  · refine ⟨p,path,hr,.inl ⟨_,?_,hstage⟩⟩
    simp only [FtpServer.getServerId,hcur,if_neg hre,htables]

theorem respawn_getServerId {tables : FtpServer}
    (hre : p.msg.type = .handshake ∧ tables.clientIds p.msg.clientId = some p.msg.serverId)
    (htables : st.tables = tables.deactivate p.msg.clientId p.msg.serverId)
    (hstage : st.stage = .retiring p) (hretire : st.retire = some mid)
    (hrespawn : mid.respawn drawn = some st') :
    ∃ target, tables.getServerId drawn p.msg = some (st'.tables,target) ∧
      st'.stage = next target p := by
  obtain ⟨p',hstage',hover⟩ := retire_cases hretire
  obtain rfl := DispatcherStage.retiring.inj (hstage.symm.trans hstage')
  obtain ⟨hmid,hjoining⟩ := handOver_tables hover
  obtain ⟨q,hq,hrespawn,hstage,-⟩ := respawn_cases hrespawn
  obtain rfl := DispatcherStage.joining.inj (hjoining.symm.trans hq)
  refine ⟨_,?_,hstage⟩
  rw [hmid,htables] at hrespawn
  simp only [FtpServer.getServerId,hre.2,hre.1,and_self,if_true,FtpServer.restartSession,hrespawn,
    Option.map_some]

theorem dispatchMessage_next (hstage : mid.stage = next target p) (hready : mid.stage = .ready) :
    mid.tables.dispatchMessage target p.msg = mid.tables := by
  rw [hstage,next] at hready
  split_ifs at hready with hnull
  rw [hnull]
  rfl

theorem dispatch_tables (hstage : mid.stage = next target p) (hs : mid.dispatch = some st') :
    st'.tables = mid.tables.dispatchMessage target p.msg := by
  obtain ⟨S,q,hq,hover⟩ := dispatch_cases hs
  rw [hstage,next] at hq
  split_ifs at hq with hnull
  obtain ⟨rfl,rfl⟩ := DispatcherStage.dispatching.inj hq
  exact (handOver_tables hover).1

def Located (st : Network) (drawn : ℤ) (p : Parcel) (target : ℤ) (mid : Network) : Prop :=
  (∃ path, st.path.take .two = some (p,path)) ∧
    st.tables.getServerId drawn p.msg = some (mid.tables,target) ∧ mid.stage = next target p

theorem Located.handle (h : st.Located drawn p target mid)
    (hmsg : st'.tables = mid.tables.dispatchMessage target p.msg) :
    ∃ p path, st.path.take .two = some (p,path) ∧
      st.tables.handle drawn p.msg = some st'.tables := by
  obtain ⟨⟨path,htake⟩,hget,-⟩ := h
  refine ⟨p,path,htake,?_⟩
  rw [FtpServer.handle,hget,hmsg]
  rfl

theorem located_of_receive (hs : st.receive drawn = some mid)
    (hnot : ∀ p, mid.stage ≠ .retiring p) : ∃ p target, st.Located drawn p target mid := by
  obtain ⟨p,path,hr,⟨target,hget,hstage⟩ | ⟨-,-,hstage⟩⟩ := receive_getServerId hs
  · exact ⟨p,target,⟨path,hr.take⟩,hget,hstage⟩
  · exact absurd hstage (hnot p)

theorem located_of_restart {unused : ℤ} {received retired : Network}
    (hreceive : st.receive unused = some received) (hretire : received.retire = some retired)
    (hrespawn : retired.respawn drawn = some mid) :
    ∃ p target, st.Located drawn p target mid := by
  obtain ⟨p,path,hr,⟨target,-,hstage⟩ | ⟨hre,htables,hstage⟩⟩ := receive_getServerId hreceive
  · obtain ⟨q,hq,-⟩ := retire_cases hretire
    rw [hstage,next] at hq
    split_ifs at hq
  · obtain ⟨target,hget,hnext⟩ := respawn_getServerId hre htables hstage hretire hrespawn
    exact ⟨p,target,⟨path,hr.take⟩,hget,hnext⟩

theorem handle_of_turn {events : List Event} (ht : Turn events drawn)
    (hs : system.run st events = some st') (hready : st'.stage = .ready) :
    ∃ p path, st.path.take .two = some (p,path) ∧
      st.tables.handle drawn p.msg = some st'.tables := by
  cases ht with
  | discarded =>
    obtain ⟨mid,hmid,hs⟩ := Option.bind_eq_some_iff.mp hs
    obtain rfl := Option.some.inj hs
    obtain ⟨p,target,hl⟩ := located_of_receive hmid fun p hp => by simp [hready] at hp
    exact hl.handle (dispatchMessage_next hl.2.2 hready).symm
  | dispatched =>
    obtain ⟨mid,hmid,hs⟩ := Option.bind_eq_some_iff.mp hs
    obtain ⟨last,hlast,hs⟩ := Option.bind_eq_some_iff.mp hs
    obtain rfl := Option.some.inj hs
    obtain ⟨S,q,hq,-⟩ := dispatch_cases hlast
    obtain ⟨p,target,hl⟩ := located_of_receive hmid fun p hp => by simp [hq] at hp
    exact hl.handle (dispatch_tables hl.2.2 hlast)
  | restarted unused =>
    obtain ⟨received,hreceive,hs⟩ := Option.bind_eq_some_iff.mp hs
    obtain ⟨retired,hretire,hs⟩ := Option.bind_eq_some_iff.mp hs
    obtain ⟨mid,hrespawn,hs⟩ := Option.bind_eq_some_iff.mp hs
    obtain rfl := Option.some.inj hs
    obtain ⟨p,target,hl⟩ := located_of_restart hreceive hretire hrespawn
    exact hl.handle (dispatchMessage_next hl.2.2 hready).symm
  | handedOn unused =>
    obtain ⟨received,hreceive,hs⟩ := Option.bind_eq_some_iff.mp hs
    obtain ⟨retired,hretire,hs⟩ := Option.bind_eq_some_iff.mp hs
    obtain ⟨mid,hrespawn,hs⟩ := Option.bind_eq_some_iff.mp hs
    obtain ⟨last,hlast,hs⟩ := Option.bind_eq_some_iff.mp hs
    obtain rfl := Option.some.inj hs
    obtain ⟨p,target,hl⟩ := located_of_restart hreceive hretire hrespawn
    exact hl.handle (dispatch_tables hl.2.2 hlast)

end Network
end FtpOverUdp
