/-
  Free node ids: the list and radix tree of known free nids, the bitmaps built by
  scanning NAT blocks, and `available_nids`.  Every function here runs under
  `nid_list_lock`.
-/
import F2fs.Node.NatCache

namespace F2fs.Node

/-- `enum nid_state`. -/
inductive NidState where
  | freeNid | preallocNid
  deriving DecidableEq, Repr

/-- The free-nid fields of `struct f2fs_nm_info`.  A `struct free_nid` is its nid and
    state. -/
structure FreeNidInfo where
  freeNidRoot : RadixTree NidState
  freeNidList : List Nat
  nidCnt : NidState → Nat
  availableNids : Nat
  natBlockBitmap : Nat → Bool
  freeNidBitmap : Nat → Nat → Bool
  freeNidCount : Nat → Nat

namespace FreeNidInfo

/-- The state `init_node_manager` sets up, before any scan. -/
def init (availableNids : Nat) : FreeNidInfo where
  freeNidRoot := RadixTree.empty
  freeNidList := []
  nidCnt := fun _ => 0
  availableNids := availableNids
  natBlockBitmap := fun _ => false
  freeNidBitmap := fun _ _ => false
  freeNidCount := fun _ => 0

/-- `nid_cnt[state]++`. -/
def cntInc (f : FreeNidInfo) (state : NidState) : FreeNidInfo :=
  { f with nidCnt := Function.update f.nidCnt state (f.nidCnt state + 1) }

/-- `nid_cnt[state]--`. -/
def cntDec (f : FreeNidInfo) (state : NidState) : FreeNidInfo :=
  { f with nidCnt := Function.update f.nidCnt state (f.nidCnt state - 1) }

/-- `__insert_free_nid` with `FREE_NID`; nothing happens when the nid is in the tree. -/
def insertFreeNid (f : FreeNidInfo) (nid : Nat) : FreeNidInfo :=
  match f.freeNidRoot.lookup nid with
  | some _ => f
  | none =>
    { f.cntInc .freeNid with
      freeNidRoot := f.freeNidRoot.insert nid .freeNid
      freeNidList := f.freeNidList ++ [nid] }

/-- `__remove_free_nid`. -/
def removeFreeNidEntry (f : FreeNidInfo) (nid : Nat) (state : NidState) : FreeNidInfo :=
  { f.cntDec state with
    freeNidRoot := f.freeNidRoot.delete nid
    freeNidList := if state = .freeNid then f.freeNidList.erase nid else f.freeNidList }

/-- `__move_free_nid`. -/
def moveFreeNid (f : FreeNidInfo) (nid : Nat) (org dst : NidState) : FreeNidInfo :=
  { (f.cntDec org).cntInc dst with
    freeNidRoot := f.freeNidRoot.modify nid fun _ => dst
    freeNidList := match dst with
      | .preallocNid => f.freeNidList.erase nid
      | .freeNid => f.freeNidList ++ [nid] }

/-- `update_free_nid_bitmap`. -/
def updateFreeNidBitmap (f : FreeNidInfo) (nid : Nat) (set build : Bool) : FreeNidInfo :=
  let natOfs := natBlockOffset nid
  let nidOfs := nid % natEntryPerBlock
  if !f.natBlockBitmap natOfs then f
  else if set then
    if f.freeNidBitmap natOfs nidOfs then f
    else
      { f with
        freeNidBitmap := Function.update f.freeNidBitmap natOfs
          (Function.update (f.freeNidBitmap natOfs) nidOfs true)
        freeNidCount := Function.update f.freeNidCount natOfs
          ((f.freeNidCount natOfs + 1) % 2 ^ 16) }
  else
    if !f.freeNidBitmap natOfs nidOfs then f
    else
      { f with
        freeNidBitmap := Function.update f.freeNidBitmap natOfs
          (Function.update (f.freeNidBitmap natOfs) nidOfs false)
        freeNidCount :=
          if build then f.freeNidCount
          else Function.update f.freeNidCount natOfs
            ((f.freeNidCount natOfs + (2 ^ 16 - 1)) % 2 ^ 16) }

/-- Why `add_free_nid` with `build` leaves a nid alone: the NAT cache knows it to be in
    use, or freed but not yet checkpointed. -/
def natBusy (ne : Option NatEntry) : Bool :=
  match ne with
  | none => false
  | some e => !e.isCheckpointed || decide (e.blkAddr ≠ nullAddr)

/-- `add_free_nid`; `ne` is `__lookup_nat_cache(nm_i, nid)`. -/
def addFreeNid (f : FreeNidInfo) (ne : Option NatEntry) (nid : Nat) (build update : Bool) :
    Bool × FreeNidInfo :=
  if nid = 0 then (false, f)
  else
    let (ret, f') : Bool × FreeNidInfo :=
      if build && natBusy ne then (false, f)
      else if build && (f.freeNidRoot.lookup nid).isSome then
        (f.freeNidRoot.lookup nid == some .freeNid, f)
      else (true, f.insertFreeNid nid)
    if update then
      let f'' := f'.updateFreeNidBitmap nid ret build
      (ret, if build then f'' else { f'' with availableNids := u32 (f''.availableNids + 1) })
    else (ret, f')

/-- `remove_free_nid`. -/
def removeFreeNid (f : FreeNidInfo) (nid : Nat) : FreeNidInfo :=
  if f.freeNidRoot.lookup nid = some .freeNid then f.removeFreeNidEntry nid .freeNid else f

end FreeNidInfo

end F2fs.Node
