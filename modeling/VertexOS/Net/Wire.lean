import VertexOS.Net.Api

namespace VertexOS
open Library.Programs

/-- An Ethernet frame: a short one is padded to 60 bytes. -/
def etherFrame (dst src : Mac) (ethertype : UInt16) (payload : List UInt8) : List UInt8 :=
  dst.bytes ++ src.bytes ++ be16 ethertype ++ payload ++
    List.replicate (60 - (14 + payload.length)) 0

theorem etherHeader_length (dst src : Mac) (ethertype : UInt16) :
    (dst.bytes ++ src.bytes ++ be16 ethertype).length = 14 := by
  simp [dst.size, src.size, be16]

/-- `eth_tx_frame_buf` after `send_frame` has filled it. -/
theorem buildFrame_bytes (n : Net) (dst : Mac) (ethertype : UInt16) (payload : Buf) (len : Nat) :
    bytesAt (buildFrame n dst ethertype payload len).bufs.eth 0 (max 60 (14 + len)) =
      etherFrame dst n.cfg.mac ethertype (bytesAt payload 0 len) := by
  have hlen := etherHeader_length dst n.cfg.mac ethertype
  have hmax : max 60 (14 + len) = 14 + len + (60 - (14 + len)) := by omega
  simp only [etherFrame, buildFrame, bytesAt_length]
  generalize dst.bytes ++ n.cfg.mac.bytes ++ be16 ethertype = h at *
  rw [hmax, bytesAt_add, bytesAt_add, Nat.zero_add, Nat.zero_add]
  have hhead : bytesAt (memCopyAt (putBytes n.bufs.eth 0 h) 14 payload len) 0 14 = h := by
    rw [bytesAt_memCopyAt_apart (by omega), ← hlen, bytesAt_putBytes]
  split
  · rw [memSetAt, bytesAt_memCopyAt_apart (by omega), hhead, bytesAt_memCopyAt_apart (by omega),
      bytesAt_memCopyAt, bytesAt_memCopyAt, bytesAt_replicate]
  · next hlong =>
    have h0 : 60 - (14 + len) = 0 := by omega
    rw [h0, hhead, bytesAt_memCopyAt]
    simp [bytesAt]

section Send

variable {n n' : Net} {dst : Mac} {ethertype : UInt16} {payload : Net → Buf} {len : Nat}
  {sent : Bool}

theorem rtl8139Send_inv {frame : Net → Buf} (h : rtl8139Send frame len n = some (sent, n')) :
    sent = false ∧ (n' = n ∨ n' = access n) ∨
    sent = true ∧ n' = startTx (access n) (bytesAt (frame (access n)) 0 len) := by
  replace h := get_bind_inv h
  split at h
  · obtain ⟨rfl, rfl⟩ := pure_inv h
    exact .inl ⟨rfl, .inl rfl⟩
  replace h := get_bind_inv (modify_bind_inv h)
  split at h
  · obtain ⟨rfl, rfl⟩ := pure_inv h
    exact .inl ⟨rfl, .inr rfl⟩
  · replace h := modify_bind_inv h
    obtain ⟨rfl, rfl⟩ := pure_inv h
    exact .inr ⟨rfl, rfl⟩

theorem hwEvent_bufs (n : Net) (e : HwEvent) : (hwEvent n e).bufs = n.bufs := by
  cases e with
  | tick => rfl
  | txDone i => rfl
  | arrive p =>
    simp only [hwEvent, receiveFrame]
    split <;> rfl

theorem access_bufs (n : Net) : (access n).bufs = n.bufs := by
  have hR : Chains fun n n' : Net => n'.bufs = n.bufs :=
    ⟨fun _ => rfl, fun _ _ _ h h' => h'.trans h⟩
  exact access_of_hwEvent hR hwEvent_bufs (fun _ _ => rfl) n

/-- What `send_frame` puts on the wire. -/
theorem sendFrame_inv (h : sendFrame dst ethertype payload len n = some (sent, n')) :
    (sent = false ∧ (n' = n ∨ ∃ m, m = buildFrame n dst ethertype (payload n) len ∧
      (n' = m ∨ n' = access m))) ∨
    (sent = true ∧ n' = startTx (access (buildFrame n dst ethertype (payload n) len))
      (etherFrame dst n.cfg.mac ethertype (bytesAt (payload n) 0 len))) := by
  unfold sendFrame at h
  split at h
  · obtain ⟨rfl, rfl⟩ := pure_inv h
    exact .inl ⟨rfl, .inl rfl⟩
  replace h := modify_bind_inv h
  rcases rtl8139Send_inv h with ⟨rfl, hn⟩ | ⟨rfl, rfl⟩
  · exact .inl ⟨rfl, .inr ⟨_, rfl, hn⟩⟩
  · refine .inr ⟨rfl, ?_⟩
    rw [access_bufs, buildFrame_bytes]

end Send

end VertexOS
