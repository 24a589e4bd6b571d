import FtpOverUdp.Wire.Layout

namespace FtpOverUdp

namespace FtpClient

def msgGet (msg : MsgImage) (received : List UInt8) : Option MsgImage :=
  msg.clearBuffer.memcpy received

end FtpClient

namespace ClientListener

-- `memcpy(&clientId,buffer,sizeof(clientId))`
def clientId (d : ReceiveBuffer) : ℤ := decodeInt d.buffer

end ClientListener

namespace Msg

structure ReceivedAs (msg decoded : Msg) : Prop where
  clientId : decoded.clientId = msg.clientId
  serverId : decoded.serverId = msg.serverId
  type : decoded.type = msg.type
  length : decoded.length = msg.length
  sequenceNumber : decoded.sequenceNumber = msg.sequenceNumber
  payload : decoded.buffer.copyOut msg.length.toNat = msg.buffer.copyOut msg.length.toNat
  cleared : decoded.buffer.val.drop msg.length.toNat =
    List.replicate (bufferLength - msg.length.toNat) 0

def payload (msg : Msg) : List UInt8 := msg.buffer.copyOut msg.length.toNat

def truncated (msg : Msg) : Msg := { msg with buffer := Buffer.copyIn msg.payload }

variable {msg : Msg}

theorem header_length : (msg.header.flatMap encodeInt).length = msgHdrSize := rfl

section Ints

variable (hints : ∀ n ∈ msg.header, IsInt n)
include hints

theorem header_fields (rest : List UInt8) :
    decodeInt (msg.header.flatMap encodeInt ++ rest) = msg.clientId ∧
      decodeInt ((msg.header.flatMap encodeInt ++ rest).drop 4) = msg.serverId ∧
      decodeInt ((msg.header.flatMap encodeInt ++ rest).drop 8) = msg.type.code ∧
      decodeInt ((msg.header.flatMap encodeInt ++ rest).drop 12) = msg.length ∧
      decodeInt ((msg.header.flatMap encodeInt ++ rest).drop 16) = msg.sequenceNumber := by
  have hfield : ∀ i (hi : i < msg.header.length),
      decodeInt ((msg.header.flatMap encodeInt ++ rest).drop (4 * i)) = msg.header[i] :=
    fun i hi => decodeInt_header hints rest hi
  refine ⟨?_,?_,?_,?_,?_⟩
  · exact hfield 0 (Nat.lt_of_sub_eq_succ rfl)
  · exact hfield 1 (Nat.lt_of_sub_eq_succ rfl)
  · exact hfield 2 (Nat.lt_of_sub_eq_succ rfl)
  · exact hfield 3 (Nat.lt_of_sub_eq_succ rfl)
  · exact hfield 4 (Nat.lt_of_sub_eq_succ rfl)

theorem toMsg_eq {old : MsgImage}
    (hold : old.val = msg.header.flatMap encodeInt ++ msg.buffer.val) : old.toMsg = msg := by
  obtain ⟨hclient,hserver,htype,hlength,hnumber⟩ := header_fields hints msg.buffer.val
  rw [← hold] at hclient hserver htype hlength hnumber
  have hbuffer : old.val.drop msgHdrSize = msg.buffer.val := by
    rw [hold]
    exact List.drop_left' header_length
  have hcode := (congrArg MsgType.ofCode htype).trans (MsgType.ofCode_code msg.type)
  exact Msg.ext hclient hserver hcode hlength hnumber (Subtype.ext hbuffer)

theorem toMsg_image : msg.image.toMsg = msg := toMsg_eq hints rfl

end Ints

section Fits

variable (hlength : 0 ≤ msg.length ∧ msg.length ≤ bufferLength)
include hlength

theorem payload_length : (msg.payload.length : ℤ) = msg.length := by
  rw [payload,Buffer.copyOut_length _ (by omega)]
  exact Int.toNat_of_nonneg hlength.1

theorem datagram_eq : msg.datagram = msg.header.flatMap encodeInt ++ msg.payload := by
  have hcut : (msgHdrSize + msg.length).toNat =
      (msg.header.flatMap encodeInt).length + msg.length.toNat := by
    rw [header_length]
    omega
  rw [datagram,hcut,image,List.take_length_add_append]
  rfl

theorem truncated_buffer : msg.truncated.buffer.val =
    msg.payload ++ List.replicate (bufferLength - msg.length.toNat) 0 := by
  have hsize := payload_length hlength
  have hnat : msg.payload.length = msg.length.toNat := by omega
  change msg.payload.take bufferLength ++ List.replicate (bufferLength - msg.payload.length) 0 = _
  rw [List.take_of_length_le (by omega),hnat]

theorem receivedAs_truncated : msg.ReceivedAs msg.truncated := by
  have hsize := payload_length hlength
  have hnat : msg.payload.length = msg.length.toNat := by omega
  refine ⟨rfl,rfl,rfl,rfl,rfl,?_,?_⟩
  · exact (congrArg _ (truncated_buffer hlength)).trans (List.take_left' hnat)
  · exact (congrArg _ (truncated_buffer hlength)).trans (List.drop_left' hnat)

theorem msgGet_datagram (old : MsgImage) :
    FtpClient.msgGet old msg.datagram = some msg.truncated.image := by
  have hsize := payload_length hlength
  have hdatagram := datagram_eq hlength
  have htotal : msg.datagram.length = msgHdrSize + msg.length.toNat := by
    rw [hdatagram,List.length_append,header_length]
    omega
  have hheader : (old.val.take msgHdrSize).length = msgHdrSize := by
    rw [List.length_take,old.property]
    rfl
  have hrest : old.clearBuffer.val.drop msg.datagram.length =
      List.replicate (bufferLength - msg.length.toNat) 0 := by
    nth_rewrite 1 [htotal,← hheader]
    exact (List.drop_length_add_append _).trans List.drop_replicate
  have hfits : msg.datagram.length ≤ msgHdrSize + bufferLength := by omega
  rw [FtpClient.msgGet,MsgImage.memcpy,dif_pos hfits]
  refine congrArg some (Subtype.ext ?_)
  change msg.datagram ++ _ = msg.header.flatMap encodeInt ++ msg.truncated.buffer.val
  rw [hrest,truncated_buffer hlength,hdatagram,List.append_assoc]

end Fits

theorem getMessage_datagram (hints : ∀ n ∈ msg.header, IsInt n)
    (hlength : 0 ≤ msg.length ∧ msg.length ≤ bufferLength) {d : ReceiveBuffer}
    (hd : d.received = msg.datagram) : FtpServer.getMessage d = some msg.truncated := by
  have hbuffer : d.buffer = msg.header.flatMap encodeInt ++ (msg.payload ++ d.stale) := by
    rw [ReceiveBuffer.buffer,hd,datagram_eq hlength,List.append_assoc]
  obtain ⟨hclient,hserver,htype,hlen,hnumber⟩ := header_fields hints (msg.payload ++ d.stale)
  rw [← hbuffer] at hclient hserver htype hlen hnumber
  have hsize := payload_length hlength
  have hpayload : (d.buffer.drop msgHdrSize).take msg.length.toNat = msg.payload := by
    have hnat : msg.payload.length = msg.length.toNat := by omega
    rw [hbuffer,List.drop_left' header_length]
    exact List.take_left' hnat
  have hdlen : d.length = msg.length := hlen
  rw [FtpServer.getMessage,hdlen,if_pos hlength,hpayload]
  have hcode := (congrArg MsgType.ofCode htype).trans (MsgType.ofCode_code msg.type)
  exact congrArg some (Msg.ext hclient hserver hcode rfl hnumber rfl)

theorem decoders_agree (hints : ∀ n ∈ msg.header, IsInt n)
    (hlength : 0 ≤ msg.length ∧ msg.length ≤ bufferLength) (old : MsgImage) {d : ReceiveBuffer}
    (hd : d.received = msg.datagram) :
    ∃ decoded, msg.ReceivedAs decoded ∧ FtpServer.getMessage d = some decoded ∧
      (FtpClient.msgGet old d.received).map MsgImage.toMsg = some decoded ∧
      ClientListener.clientId d = msg.clientId := by
  have hkept : ∀ n ∈ msg.truncated.header, IsInt n := hints
  refine ⟨msg.truncated,receivedAs_truncated hlength,getMessage_datagram hints hlength hd,?_,?_⟩
  · rw [hd,msgGet_datagram hlength,Option.map_some,toMsg_image hkept]
  · rw [ClientListener.clientId,ReceiveBuffer.buffer,hd,datagram_eq hlength,List.append_assoc]
    exact (header_fields hints _).1

theorem decoders_agree_one_byte :
    let msg : Msg := ⟨5,3,.resp,1,2,Buffer.copyIn [65]⟩
    let old : MsgImage := ⟨List.replicate 276 255,List.length_replicate⟩
    let d : ReceiveBuffer := ⟨msg.datagram,List.replicate 491 255,by
      rw [List.length_replicate]
      rfl⟩
    ∃ decoded, msg.ReceivedAs decoded ∧ FtpServer.getMessage d = some decoded ∧
      (FtpClient.msgGet old d.received).map MsgImage.toMsg = some decoded ∧
      ClientListener.clientId d = 5 :=
  decoders_agree (by simp [Msg.header,IsInt,MsgType.code]) (by decide) _ rfl

end Msg
end FtpOverUdp
