import VertexOS.Net.EmittedRuns

namespace VertexOS
open Library.Programs

/-- The driver is up and its next descriptor free. -/
structure ReadyToSend (n : Net) : Prop where
  up : n.drv.up = true
  idle : n.nic.txBusy n.drv.txIndex = false

/-- The hardware address of the next hop to `dstIp` is in the cache. -/
structure Cached (n : Net) (dstIp : UInt32) : Prop where
  valid : n.arp.valid = true
  ip : n.arp.ip = routeIp n.cfg dstIp

/-- An echo request to the host's address in `rx_frame_tmp`. -/
structure EchoRequest (n : Net) (ip payload len : Nat) : Prop where
  long : 8 ≤ len
  type : n.drv.rxFrameTmp payload = 8
  configured : n.cfg.ip ≠ 0
  dst : rd32 n.drv.rxFrameTmp (ip + 16) = n.cfg.ip

section Send

variable {poll : NetM Unit} {n : Net} {fuel len : Nat} {dst : Mac} {ethertype : UInt16}
  {payload : Net → Buf} {frame : Net → Buf}

/-- An access leaves the driver's variables, and a free descriptor free. -/
theorem access_descriptors (n : Net) : (access n).drv = n.drv ∧
    ∀ i, n.nic.txBusy i = false → (access n).nic.txBusy i = false := by
  refine access_of_hwEvent (R := fun n n' => n'.drv = n.drv ∧
    ∀ i, n.nic.txBusy i = false → n'.nic.txBusy i = false) ⟨?_, ?_⟩ ?_ ?_ n
  · exact fun n => ⟨rfl, fun _ h => h⟩
  · intro n1 n2 n3 h h'
    exact ⟨h'.1.trans h.1, fun i hi => h'.2 i (h.2 i hi)⟩
  · intro n e
    cases e with
    | tick => exact ⟨rfl, fun _ h => h⟩
    | txDone j =>
      refine ⟨rfl, ?_⟩
      intro i hi
      simp only [hwEvent, Function.update_apply, hi, ite_self]
    | arrive p =>
      simp only [hwEvent, receiveFrame]
      split
      · exact ⟨rfl, fun _ h => h⟩
      · exact ⟨rfl, fun _ h => h⟩
  · exact fun n k => ⟨rfl, fun _ h => h⟩

theorem rtl8139Send_ready (h : ReadyToSend n) (hpos : 0 < len) (hlen : len ≤ 1514) :
    ∃ n', rtl8139Send frame len n = some (true, n') := by
  obtain ⟨hdrv, hidle⟩ := access_descriptors n
  unfold rtl8139Send
  rw [get_bind_run, if_neg (by simp [h.up]; omega), modify_bind_run, get_bind_run,
    if_neg (by simp [hdrv, hidle _ h.idle]), modify_bind_run]
  exact ⟨_, rfl⟩

theorem sendFrame_ready (h : ReadyToSend n) (hlen : len ≤ 1500) :
    ∃ n', sendFrame dst ethertype payload len n = some (true, n') := by
  unfold sendFrame
  rw [if_neg (by omega), modify_bind_run]
  exact rtl8139Send_ready ⟨h.up, h.idle⟩ (by omega) (by omega)

theorem resolveTargetMac_cached {dstIp : UInt32} (h : Cached n dstIp) :
    resolveTargetMac poll fuel dstIp n = some (some n.arp.mac, n) := by
  unfold resolveTargetMac
  rw [get_bind_run, if_pos ⟨h.valid, h.ip⟩]
  rfl

/-- Without a wait one packet leaves, with the payload as it is. -/
theorem sendIpv4Packet_ready (h : ReadyToSend n) {dstIp : UInt32} (hc : Cached n dstIp)
    (poll : NetM Unit) (fuel : Nat) (proto : UInt8) (payload : Net → Buf) (ident : UInt16)
    (hlen : len ≤ 1480) :
    ∃ n' u, sendIpv4Packet poll fuel dstIp proto payload len ident n = some (true, n') ∧
      (∀ e ∈ u, e.quiet = true) ∧ n'.trace = n.trace ++ (u ++ [.sent (etherFrame n.arp.mac n.cfg.mac
        ethTypeIpv4 (ipv4Header (UInt16.ofNat (20 + len)) ident 0x4000 proto n.cfg.ip dstIp ++
          bytesAt (payload n) 0 len))]) := by
  have hready : ReadyToSend (buildIpv4 n dstIp proto (payload n) len ident) := ⟨h.up, h.idle⟩
  obtain ⟨n', hsend⟩ : ∃ n', sendFrame n.arp.mac ethTypeIpv4 (·.bufs.ipv4) (20 + len)
      (buildIpv4 n dstIp proto (payload n) len ident) = some (true, n') :=
    sendFrame_ready hready (by omega)
  have hrun : sendIpv4Packet poll fuel dstIp proto payload len ident n = some (true, n') := by
    unfold sendIpv4Packet
    rw [bind_run (resolveTargetMac_cached hc)]
    exact hsend
  rcases sendFrame_inv hsend with ⟨hf, -⟩ | ⟨-, hn'⟩
  · cases hf
  obtain ⟨u, hu, hq⟩ := access_quietly (buildFrame (buildIpv4 n dstIp proto (payload n) len ident)
    n.arp.mac ethTypeIpv4 (buildIpv4 n dstIp proto (payload n) len ident).bufs.ipv4 (20 + len))
  refine ⟨n', u, hrun, hq, ?_⟩
  rw [hn', buildIpv4_bytes, ← List.append_assoc]
  exact congrArg (· ++ [_]) hu

end Send

section Reply

variable {payload len : Nat}

theorem echoReply_length (b : Buf) (payload len : Nat) :
    (echoReply b payload len).length = min len 128 := bytesAt_length _ _ _

/-- A reply is the request up to 128 bytes, with type 0 and its own checksum. -/
theorem echoReply_bytes (b : Buf) (payload : Nat) (hlen : 8 ≤ len) : ∃ sum, echoReply b payload len =
    0 :: b (payload + 1) :: (be16 sum ++ bytesAt b (payload + 4) (min len 128 - 4)) := by
  obtain ⟨k, hk⟩ : ∃ k, min len 128 = 1 + (1 + (2 + k)) := ⟨min len 128 - 4, by omega⟩
  refine ⟨checksum16 (putBytes (putBytes (bufOf (bytesAt b payload (min len 128))) 0 [0]) 2 [0, 0])
    (min len 128), ?_⟩
  simp only [echoReply]
  generalize hz : putBytes (putBytes (bufOf (bytesAt b payload (min len 128))) 0 [0]) 2 [0, 0] = z
  have hcopy : ∀ i, i < min len 128 → bufOf (bytesAt b payload (min len 128)) i = b (payload + i) := by
    intro i hi
    simp [bufOf, bytesAt, hi]
  have h0 : z 0 = 0 := by
    rw [← hz]
    rfl
  have h1 : z 1 = b (payload + 1) := by
    rw [← hz, ← hcopy 1 (by omega)]
    rfl
  have hrest : ∀ i, i < k → z (4 + i) = b (payload + 4 + i) := by
    intro i hi
    rw [← hz, Nat.add_assoc, ← hcopy (4 + i) (by omega)]
    simp only [putBytes, memCopyAt, List.length_cons, List.length_nil]
    rw [if_neg (by omega), if_neg (by omega)]
  generalize checksum16 z (min len 128) = sum
  have hsub : 1 + (1 + (2 + k)) - 4 = k := by omega
  have hword : bytesAt (putBytes z 2 (be16 sum)) 2 2 = be16 sum := bytesAt_putBytes z 2 (be16 sum)
  have hsize : (be16 sum).length = 2 := rfl
  have hbehind : bytesAt z 4 k = bytesAt b (payload + 4) k := bytesAt_congr hrest
  rw [hk, hsub, bytesAt_add, bytesAt_add, bytesAt_add, Nat.zero_add, hword,
    bytesAt_putBytes_apart (by omega), bytesAt_putBytes_apart (by omega),
    bytesAt_putBytes_apart (by omega), hbehind]
  simp [bytesAt, h0, h1]

/-- `handle_icmp` answers an echo request with its first 128 bytes, in one packet to the sender,
if the next hop is known and the driver ready; the checksum of the reply is valid. -/
theorem echo_replied {poll : NetM Unit} {fuel ip : Nat} {n : Net}
    (hrequest : EchoRequest n ip payload len)
    (hroute : Cached n (rd32 n.drv.rxFrameTmp (ip + 12))) (hready : ReadyToSend n) :
    ∃ n' u sum message, handleIcmp poll fuel ip payload len n = some ((), n') ∧
      (∀ e ∈ u, e.quiet = true) ∧ n'.trace = n.trace ++ (u ++ [.sent (etherFrame n.arp.mac n.cfg.mac
        ethTypeIpv4 (ipv4Header (UInt16.ofNat (20 + message.length)) 0x1234 0x4000 1 n.cfg.ip
          (rd32 n.drv.rxFrameTmp (ip + 12)) ++ message))]) ∧
      message = 0 :: n.drv.rxFrameTmp (payload + 1) ::
        (be16 sum ++ bytesAt n.drv.rxFrameTmp (payload + 4) (min len 128 - 4)) ∧
      checksum16 (bufOf message) message.length = 0 := by
  obtain ⟨hlen, htype, hip, hdst⟩ := hrequest
  obtain ⟨sum, hsum⟩ := echoReply_bytes n.drv.rxFrameTmp payload hlen
  have hsize := echoReply_length n.drv.rxFrameTmp payload len
  have hvalid := echoReply_verifies n.drv.rxFrameTmp payload len hlen
  have hrun : handleIcmp poll fuel ip payload len n = (do
      let _ ← sendIpv4Packet poll fuel (rd32 n.drv.rxFrameTmp (ip + 12)) 1
        (fun _ => bufOf (echoReply n.drv.rxFrameTmp payload len))
        (echoReply n.drv.rxFrameTmp payload len).length 0x1234 : NetM Unit) n := by
    unfold handleIcmp
    rw [get_bind_run, if_neg (by omega), if_neg (by simp [htype]), if_pos ⟨htype, hip, hdst⟩]
  generalize echoReply n.drv.rxFrameTmp payload len = message at *
  have hfits : message.length ≤ 1480 := by omega
  obtain ⟨n', u, hsend, hq, htrace⟩ :=
    sendIpv4Packet_ready hready hroute poll fuel 1 (fun _ => bufOf message) 0x1234 hfits
  refine ⟨n', u, sum, message, ?_, hq, ?_, hsum, hvalid⟩
  · rw [hrun, bind_run hsend]
    rfl
  · rw [htrace, bytesAt_bufOf]

/-- An echo request from a neighbour, as `handle_icmp` finds it. -/
def requestNet (data : List UInt8) : Net :=
  { cfg := { mac := broadcastMac, ip := 0x0A000001, linkUp := true }
    arp := ⟨true, 0x0A000002, broadcastMac⟩
    drv := { up := true, rxFrameTmp := bufOf (etherFrame broadcastMac broadcastMac ethTypeIpv4
      (ipv4Header (UInt16.ofNat (28 + data.length)) 0 0 1 0x0A000002 0x0A000001 ++
        ([8, 0, 0, 0, 0, 7, 0, 1] ++ data))) } }

theorem echo_replied_short : ∃ n' u sum message,
    handleIcmp (netPoll 1) 1 14 34 10 (requestNet [104, 105]) = some ((), n') ∧
    (∀ e ∈ u, e.quiet = true) ∧ n'.trace = [] ++ (u ++ [.sent (etherFrame broadcastMac broadcastMac
      ethTypeIpv4 (ipv4Header (UInt16.ofNat (20 + message.length)) 0x1234 0x4000 1 0x0A000001
        (rd32 (requestNet [104, 105]).drv.rxFrameTmp 26) ++ message))]) ∧
    message = 0 :: (requestNet [104, 105]).drv.rxFrameTmp 35 ::
      (be16 sum ++ bytesAt (requestNet [104, 105]).drv.rxFrameTmp 38 6) ∧
    checksum16 (bufOf message) message.length = 0 :=
  @echo_replied 34 10 (netPoll 1) 1 14 (requestNet [104, 105])
    ⟨by decide, by decide, by decide, by decide⟩ ⟨rfl, by decide⟩ ⟨rfl, rfl⟩

/-- Of 129 bytes the last one does not come back. -/
theorem echo_cut_off : EchoRequest (requestNet (List.replicate 121 1)) 14 34 129 ∧
    Cached (requestNet (List.replicate 121 1)) 0x0A000002 ∧
    ReadyToSend (requestNet (List.replicate 121 1)) ∧
    ∃ n' frame, handleIcmp (netPoll 1) 1 14 34 129 (requestNet (List.replicate 121 1)) =
      some ((), n') ∧ n'.trace = [.sent frame] ∧ dataLen frame = 128 := by
  refine ⟨⟨by decide, by decide, by decide, by decide⟩, ⟨rfl, by decide⟩, ⟨rfl, rfl⟩, ?_⟩
  have h : (handleIcmp (netPoll 1) 1 14 34 129 (requestNet (List.replicate 121 1))).map
      (fun r => r.2.trace) = some [.sent (etherFrame broadcastMac broadcastMac ethTypeIpv4
        (ipv4Header 148 0x1234 0x4000 1 0x0A000001 0x0A000002 ++
          echoReply (requestNet (List.replicate 121 1)).drv.rxFrameTmp 34 129))] := by
    decide +kernel
  obtain ⟨⟨u, n'⟩, hrun, htrace⟩ := Option.map_eq_some_iff.mp h
  exact ⟨n', _, hrun, htrace, by decide +kernel⟩

end Reply

end VertexOS
