import CpuSubsystem.Lib.BpfMap
import CpuSubsystem.Lib.Machine
import Mathlib.Data.UInt

/-!
# Delays of message queues, kernel side (`cpu_watcher/bpf/mq_delay.bpf.c`)

A send leaves its data under its thread and, once `load_msg` has made the message block, under the
address of the block, where the receive that stores the block finds it.  All probes look the control
up and then do not use the answer.
-/

namespace CpuSubsystem.MqDelay

/-- `struct mq_ctrl`. -/
structure MqCtrl where
  mqFunc : Bool
  prevWatcher : Int
deriving DecidableEq, Repr

/-- `struct send_events`. -/
structure SendEvents where
  sendPid : Int
  keyMsgPtr : UInt64
  mqdes : Int
  msgLen : UInt64
  msgPrio : UInt32
  uMsgPtr : UInt64
  src : UInt64
  sendEnterTime : UInt64
  sendExitTime : UInt64
deriving DecidableEq, Repr

/-- `struct rcv_events`. -/
structure RcvEvents where
  rcvPid : Int
  keyMsgPtr : UInt64
  mqdes : Int
  msgLen : UInt64
  msgPrio : UInt32
  uMsgPtr : UInt64
  dest : UInt64
  rcvEnterTime : UInt64
  rcvExitTime : UInt64
deriving DecidableEq, Repr

/-- `struct mq_events`. -/
structure MqEvents where
  sendPid : Int
  rcvPid : Int
  mqdes : Int
  msgLen : UInt64
  msgPrio : UInt32
  sendEnterTime : UInt64
  sendExitTime : UInt64
  rcvEnterTime : UInt64
  rcvExitTime : UInt64
deriving DecidableEq, Repr

structure State where
  mqCtrlMap : MqCtrl
  sendMsg1 : BpfMap Int SendEvents
  sendMsg2 : BpfMap UInt64 SendEvents
  rcvMsg1 : BpfMap Int RcvEvents
deriving DecidableEq

/-- The entry of `do_mq_timedsend`. -/
def mqTimedsend (s : State) (pid mqdes : Int) (uMsgPtr msgLen : UInt64) (msgPrio : UInt32)
    (sendEnterTime : UInt64) (room : Bool) : State :=
  { s with
    sendMsg1 := s.sendMsg1.update room pid
      { sendPid := pid, keyMsgPtr := 0, mqdes, msgLen, msgPrio, uMsgPtr, src := 0, sendEnterTime,
        sendExitTime := 0 } }

def loadMsgEnter (s : State) (pid : Int) (src : UInt64) : State :=
  match s.sendMsg1.lookup pid with
  | none => s
  | some info => { s with sendMsg1 := s.sendMsg1.store pid { info with src } }

/-- `ret` is the address of the new block, or an error number as a pointer. -/
def loadMsgExit (s : State) (pid : Int) (ret : UInt64) (room : Bool) : State :=
  match s.sendMsg1.lookup pid with
  | none => s
  | some info =>
    if info.uMsgPtr = info.src ∧ pid = info.sendPid then
      let info := { info with keyMsgPtr := ret }
      { s with
        sendMsg1 := s.sendMsg1.store pid info
        sendMsg2 := s.sendMsg2.update room ret info }
    else s

def doMqTimedsendExit (s : State) (pid : Int) (sendExitTime : UInt64) : State :=
  match s.sendMsg1.lookup pid with
  | none => s
  | some info1 =>
    match s.sendMsg2.lookup info1.keyMsgPtr with
    | none => s
    | some info2 =>
      { s with
        sendMsg1 := s.sendMsg1.delete pid
        sendMsg2 := s.sendMsg2.store info1.keyMsgPtr { info2 with sendExitTime } }

def mqTimedreceiveEntry (s : State) (pid mqdes : Int) (uMsgPtr rcvEnterTime : UInt64)
    (room : Bool) : State :=
  { s with
    rcvMsg1 := s.rcvMsg1.update room pid
      { rcvPid := pid, keyMsgPtr := 0, mqdes, msgLen := 0, msgPrio := 0, uMsgPtr, dest := 0,
        rcvEnterTime, rcvExitTime := 0 } }

/-- `mType` and `mTs` are read from the block. -/
def storeMsg (s : State) (pid : Int) (dest msg : UInt64) (mType : UInt32) (mTs : UInt64) : State :=
  match s.sendMsg2.lookup msg with
  | none => s
  | some _ =>
    match s.rcvMsg1.lookup pid with
    | none => s
    | some info =>
      if dest = info.uMsgPtr ∧ pid = info.rcvPid then
        { s with
          rcvMsg1 := s.rcvMsg1.store pid
            { info with keyMsgPtr := msg, dest, msgPrio := mType, msgLen := mTs } }
      else s

/-- Without space for the record both elements stay. -/
def doMqTimedreceiveExit (s : State) (pid : Int) (rcvExitTime : UInt64) (slot : Bool) :
    State × List MqEvents :=
  match s.rcvMsg1.lookup pid with
  | none => (s, [])
  | some rcv =>
    match s.sendMsg2.lookup rcv.keyMsgPtr with
    | none => (s, [])
    | some send =>
      if slot then
        ({ s with
            sendMsg2 := s.sendMsg2.delete rcv.keyMsgPtr
            rcvMsg1 := s.rcvMsg1.delete pid },
          [{ sendPid := send.sendPid, rcvPid := pid, mqdes := send.mqdes, msgLen := send.msgLen,
             msgPrio := send.msgPrio, sendEnterTime := send.sendEnterTime,
             sendExitTime := send.sendExitTime, rcvEnterTime := rcv.rcvEnterTime,
             rcvExitTime }])
      else (s, [])

inductive Event where
  | mqCtrl (c : MqCtrl)
  | mqTimedsend (pid mqdes : Int) (uMsgPtr msgLen : UInt64) (msgPrio : UInt32)
      (sendEnterTime : UInt64) (room : Bool)
  | loadMsgEnter (pid : Int) (src : UInt64)
  | loadMsgExit (pid : Int) (ret : UInt64) (room : Bool)
  | doMqTimedsendExit (pid : Int) (sendExitTime : UInt64)
  | mqTimedreceiveEntry (pid mqdes : Int) (uMsgPtr rcvEnterTime : UInt64) (room : Bool)
  | storeMsg (pid : Int) (dest msg : UInt64) (mType : UInt32) (mTs : UInt64)
  | doMqTimedreceiveExit (pid : Int) (rcvExitTime : UInt64) (slot : Bool)
deriving DecidableEq

def step (s : State) : Event → State × List MqEvents
  | .mqCtrl c => ({ s with mqCtrlMap := c }, [])
  | .mqTimedsend pid mqdes uMsgPtr msgLen msgPrio sendEnterTime room =>
    (mqTimedsend s pid mqdes uMsgPtr msgLen msgPrio sendEnterTime room, [])
  | .loadMsgEnter pid src => (loadMsgEnter s pid src, [])
  | .loadMsgExit pid ret room => (loadMsgExit s pid ret room, [])
  | .doMqTimedsendExit pid sendExitTime => (doMqTimedsendExit s pid sendExitTime, [])
  | .mqTimedreceiveEntry pid mqdes uMsgPtr rcvEnterTime room =>
    (mqTimedreceiveEntry s pid mqdes uMsgPtr rcvEnterTime room, [])
  | .storeMsg pid dest msg mType mTs => (storeMsg s pid dest msg mType mTs, [])
  | .doMqTimedreceiveExit pid rcvExitTime slot => doMqTimedreceiveExit s pid rcvExitTime slot

def initial (c : MqCtrl) : State := ⟨c, BpfMap.empty, BpfMap.empty, BpfMap.empty⟩

def machine (c : MqCtrl) : Machine State Event MqEvents := ⟨initial c, step⟩

/-- What the callback of the ring buffer prints: an error, or a line with the record and delays that
are computed from its times. -/
inductive Printed where
  | erro
  | line (e : MqEvents)
deriving DecidableEq, Repr

def mqEvent (e : MqEvents) : Printed :=
  if e.sendEnterTime = 0 ∨ e.sendExitTime = 0 ∨ e.rcvEnterTime = 0 ∨ e.rcvExitTime = 0 then .erro
  else .line e

end CpuSubsystem.MqDelay
