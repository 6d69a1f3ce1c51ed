import ExFat.Amiga.Handler

namespace ExFat

/-!
# `handler.c`: the packets

One routine for each packet, and the loop of `exfat_handler_main` that serves them.  The loop
fetches packets until the port is empty before it looks at `quit` again, so a run is a list of
batches.
-/

variable {δ : Type}

/-- `OPEN_OLD`, `OPEN_NEW` and `OPEN_UPDATE`. -/
inductive OpenMode
  | old | new | update
  deriving DecidableEq, Repr

/-- A packet with its arguments.  A lock or file that is `none` is a null pointer; `fh` and `fib`
say whether the pointer to the file handle and to the `FileInfoBlock` is there.  `diskKey` is what
`fib_DiskKey` holds. -/
inductive Packet
  | locateObject (lock : Option LockId) (name : Bstr)
  | freeLock (lock : Option LockId)
  | copyDir (lock : Option LockId)
  | copyDirFh (file : Option FileId)
  | parentFh (file : Option FileId)
  | parent (lock : Option LockId)
  | sameLock (a b : Option LockId)
  | examineObject (lock : Option LockId)
  | examineNext (lock : Option LockId) (diskKey : Int)
  | examineFh (file : Option FileId) (fib : Bool)
  | find (mode : OpenMode) (fh : Bool) (lock : Option LockId) (name : Bstr)
  | fhFromLock (fh : Bool) (lock : Option LockId)
  | read (file : Option FileId) (length : Int)
  | write (file : Option FileId) (buffer : Nat → UInt8) (length : Int)
  | seek (file : Option FileId) (offset mode : Int)
  | setFileSize (file : Option FileId) (offset mode : Int)
  | setProtect (lock : Option LockId) (name : Bstr) (bits : Nat)
  | setDate (lock : Option LockId) (name : Bstr) (ds : Option DateStamp)
  | setComment (lock : Option LockId) (name : Bstr) (comment : Option Bstr)
  | deleteObject (lock : Option LockId) (name : Bstr)
  | createDir (lock : Option LockId) (name : Bstr)
  | renameObject (src : Option LockId) (srcName : Bstr) (dst : Option LockId) (dstName : Bstr)
  | renameDisk (name : Option Bstr)
  | format (label : Option Bstr)
  | endFile (file : Option FileId)
  | info
  | currentVolume
  | isFilesystem
  | flush
  | inhibit (on : Bool)
  | die
  | unknown

/-- `needs_medium`. -/
def Packet.needsMedium : Packet → Bool
  | .locateObject .. | .copyDir .. | .copyDirFh .. | .parent .. | .parentFh .. | .examineObject ..
  | .examineNext .. | .examineFh .. | .find .. | .fhFromLock .. | .read .. | .write .. | .seek ..
  | .setFileSize .. | .setProtect .. | .setDate .. | .setComment .. | .deleteObject ..
  | .createDir .. | .renameObject .. | .renameDisk .. => true
  | _ => false

/-- Whether a refusal has `-1` as its first result. -/
def Packet.rws : Packet → Bool
  | .read .. | .write .. | .seek .. => true
  | _ => false

/-! ### `fill_fib` -/

/-- The name `fill_fib` stores. -/
def fibName (ef : Ef δ) (n : Node) (isRoot : Bool) : EfM δ (List UInt8) := do
  if isRoot then pure (exfatAmigaNameToBstr 30 ef.label)
  else do
    let name ← safeGetName n
    pure (exfatAmigaNameToBstr 106 name)

/-- The bits `fill_fib` stores in `fib_Protection`. -/
def fibProtection (ro : Bool) (attrib : Nat) : Nat :=
  (if ro ∨ attrib.testBit 0 then 0x05 else 0) ||| if attrib.testBit 5 then 0x10 else 0

/-- `fill_fib`. -/
def fillFib (i : NodeId) (diskKey : Int) (isRoot : Bool) : TreeM δ FileInfoBlock := do
  let n ← getNode i
  let t ← get
  let name ← onVolume (fibName t.ef n isRoot)
  pure {
    diskKey := diskKey
    dirEntryType := if isRoot then .root else if n.isDir then .userDir else .file
    fileName := name
    protection := fibProtection t.ef.ro n.attrib
    size := if n.isDir then 0 else min n.size 0x7fffffff
    numBlocks := if n.isDir then 0 else int32 (divRoundUp n.size t.ef.sb.clusterSize : Nat)
    date := exfatAmigaTimeToDatestamp n.mtime }

/-- The node a lock stands for: no lock means the root. -/
def lockNode (lock : Option Lock) : HandlerM δ NodeId := do
  let h ← get
  pure (match lock with
    | some lock => lock.node
    | none => h.fs.root)

/-- `resolve_path`, for a lock a packet names. -/
def resolve (lock : Option LockId) (name : Bstr) : HandlerM δ (Option (List UInt8)) := do
  let base ← lockAt lock
  useFs (resolvePath (base.map Lock.node) name)

/-! ### Scans -/

/-- `node->next`. -/
def nextSibling (i : NodeId) : TreeM δ (Option NodeId) := do
  let n ← getNode i
  match n.parent with
  | none => pure none
  | some p => do
    let d ← getNode p
    pure ((d.child.dropWhile (· != i)).drop 1).head?

/-- Store the place a scan has reached. -/
def setScan (lock : Option LockId) (next : Option NodeId) (index : Int) : HandlerM δ PUnit :=
  match lock with
  | none => pure ⟨⟩
  | some l => modify fun h => { h with
      locks := h.locks.update l fun lock => { lock with scanNext := next, scanIndex := index } }

/-- `scan_skip_node`. -/
def scanSkipNode (i : NodeId) : HandlerM δ PUnit := do
  let h ← get
  match h.volume with
  | none => pure ⟨⟩
  | some v => do
    let next ← useFs (nextSibling i)
    modify fun h => { h with
      locks := h.locks.map fun l lock =>
        if l ∈ v.lockList ∧ lock.scanNext = some i then { lock with scanNext := next } else lock }

/-- `scan_invalidate_all`. -/
def scanInvalidateAll : HandlerM δ PUnit := do
  let h ← get
  match h.volume with
  | none => pure ⟨⟩
  | some v =>
    modify fun h => { h with
      locks := h.locks.map fun l lock =>
        if l ∈ v.lockList then { lock with scanNext := none } else lock }

/-- The loop of `do_examine_next` over the children that are left: the entry with the number `want`,
on which a reference is held. -/
def countTo (want : Int) : (index : Int) → List NodeId → TreeM δ (Option NodeId)
  | _, [] => pure none
  | index, i :: is => do
    exfatGetNode i
    if index = want then pure (some i)
    else do
      exfatPutNode i
      countTo want (index + 1) is

/-! ### Locks -/

/-- `do_copy_dir`. -/
def doCopyDir (lock : Option LockId) : HandlerM δ PacketReply := do
  let i ← lockNode (← lockAt lock)
  useFs (exfatGetNode i)
  giveLock i .shared

/-- `do_lock_from_fh`. -/
def doLockFromFh (file : Option FileId) (wantParent : Bool) : HandlerM δ PacketReply := do
  match ← fileAt file with
  | none => refuse .invalidLock
  | some file => do
    let i ← if wantParent then useFs do
        let n ← getNode file.node
        let t ← get
        pure (n.parent.getD t.root)
      else pure file.node
    useFs (exfatGetNode i)
    giveLock i .shared

/-- `do_parent`. -/
def doParent (lock : Option LockId) : HandlerM δ PacketReply := do
  match ← lockAt lock with
  | none => answer 0 none
  | some src => do
    let parent ← useFs do
      let t ← get
      -- the root has no parent, which is no error
      if src.node = t.root then pure none
      else do
        let n ← getNode src.node
        pure n.parent
    match parent with
    -- a node without a parent is answered like the root
    | none => answer 0 none
    | some p => do
      useFs (exfatGetNode p)
      giveLock p .shared

/-- `ACTION_SAME_LOCK`. -/
def doSameLock (a b : Option LockId) : HandlerM δ PacketReply := do
  let na ← lockNode (← lockAt a)
  let nb ← lockNode (← lockAt b)
  answer (if na = nb then dosTrue else dosFalse) none

/-- `do_examine_object`. -/
def doExamineObject (lock : Option LockId) : HandlerM δ PacketReply := do
  let i ← lockNode (← lockAt lock)
  let fib ← useFs do
    let t ← get
    fillFib i 0 (i = t.root)
  -- this packet also starts a scan
  setScan lock none (-1)
  pure { res1 := dosTrue, fib := some fib }

/-- `do_examine_fh`. -/
def doExamineFh (file : Option FileId) (fib : Bool) : HandlerM δ PacketReply := do
  match ← fileAt file with
  | none => refuse .invalidLock
  | some file =>
    if !fib then refuse .invalidLock
    else do
      let fib ← useFs (fillFib file.node 0 false)
      pure { res1 := dosTrue, fib := some fib }

section Device

variable [Device δ]

/-- `do_locate_object`. -/
def doLocateObject (lock : Option LockId) (name : Bstr) : HandlerM δ PacketReply := do
  match ← resolve lock name with
  | none => refuse .objectNotFound
  | some path => do
    match ← useFs (exfatLookup path) with
    | .error _ => refuse .objectNotFound
    | .ok i => giveLock i .shared

/-- The end of `do_examine_next` for the entry `i`, found by its number. -/
def examineFound (lock : Option LockId) (dir i : NodeId) (want : Int) : HandlerM δ PacketReply := do
  let fib ← useFs (fillFib i (want + 1) false)
  let next ← useFs (nextSibling i)
  setScan lock next (want + 1)
  useFs do
    exfatPutNode i
    exfatPutNode dir
  pure { res1 := dosTrue, fib := some fib }

/-- The part of `do_examine_next` that counts up to the entry `want`. -/
def examineCounting (lock : Option LockId) (dir : NodeId) (want : Int) :
    HandlerM δ PacketReply := do
  match ← useFs (exfatOpendir dir) with
  | .error _ => refuse .noMoreEntries
  | .ok _ => do
    let found ← useFs do
      let d ← getNode dir
      -- without a place to go on from the entries are counted from the first
      countTo want 0 d.child
    match found with
    | some i => examineFound lock dir i want
    -- behind the last entry the scan begins anew
    | none => do
      useFs (exfatPutNode dir)
      setScan lock none (-1)
      refuse .noMoreEntries

/-- The place in the lock, if `do_examine_next` may take it for the entry `want`. -/
def scanPlace (lock : Option Lock) (want : Int) (dir : Node) : Option NodeId :=
  match lock with
  | none => none
  | some lock => if lock.scanIndex = want ∧ dir.isCached then lock.scanNext else none

/-- `do_examine_next`. -/
def doExamineNext (lock : Option LockId) (want : Int) : HandlerM δ PacketReply := do
  let l ← lockAt lock
  let dir ← lockNode l
  let d ← useFs (getNode dir)
  if !d.isDir then refuse .objectWrongType
  else
    match scanPlace l want d with
    | some i => do
      let fib ← useFs (fillFib i (want + 1) false)
      let next ← useFs (nextSibling i)
      setScan lock next (want + 1)
      pure { res1 := dosTrue, fib := some fib }
    | none => examineCounting lock dir want

/-! ### Files -/

/-- The end of the packets that open a file: the reference on the node goes to the file, or is
dropped. -/
def giveFile (i : NodeId) (writable : Bool) : HandlerM δ PacketReply := do
  if !(← ask Outside.allocVec) then do
    useFs (exfatPutNode i)
    refuse .noFreeStore
  else do
    let h ← get
    set { h with
      files := h.files.insert { node := i, writable := writable }
      nfiles := h.nfiles + 1 }
    pure { res1 := dosTrue, fhArg1 := some h.files.next }

/-- `do_open` creates the file. -/
def openCreate (path : List UInt8) : HandlerM δ PacketReply := do
  match ← useFs (exfatMknod path) with
  | .error e => refuse (mapErrno e)
  | .ok _ => do
    match ← useFs (exfatLookup path) with
    | .error e => refuse (mapErrno e)
    | .ok i => giveFile i true

/-- `do_open` has found the node `i`. -/
def openExisting (mode : OpenMode) (i : NodeId) : HandlerM δ PacketReply := do
  let n ← useFs (getNode i)
  if n.isDir then do
    useFs (exfatPutNode i)
    refuse .objectWrongType
  else if mode = .new then do
    -- the file and its contents are replaced
    match ← useFs (onNode i (exfatTruncate 0 true)) with
    | .error e => do
      let _ ← useFs (exfatFlushNode i)
      useFs (exfatPutNode i)
      refuse (mapErrno e)
    | .ok _ => giveFile i true
  else giveFile i (mode ≠ .old)

/-- `do_open`. -/
def doOpen (mode : OpenMode) (fh : Bool) (lock : Option LockId) (name : Bstr) :
    HandlerM δ PacketReply := do
  if !fh then refuse .objectNotFound
  else do
    match ← resolve lock name with
    | none => refuse .objectNotFound
    | some path => do
      let h ← get
      if mode ≠ .old ∧ (h.inhibited ∨ h.fs.ef.ro) then refuse .diskWriteProtected
      else do
        match ← useFs (exfatLookup path) with
        | .error _ => if mode = .old then refuse .objectNotFound else openCreate path
        | .ok i => openExisting mode i

/-- `do_fh_from_lock`. -/
def doFhFromLock (fh : Bool) (lock : Option LockId) : HandlerM δ PacketReply := do
  match ← lockAt lock with
  | none => refuse .invalidLock
  | some l =>
    if !fh then refuse .invalidLock
    else do
      let n ← useFs (getNode l.node)
      if n.isDir then refuse .objectWrongType
      -- the handle is made before the lock is given up
      else if !(← ask Outside.allocVec) then refuse .noFreeStore
      else do
        useFs (exfatGetNode l.node)
        -- the lock goes, and its reference with it: the handle has taken one of its own
        exfatAmigaFreelock lock
        let h ← get
        set { h with
          files := h.files.insert { node := l.node, writable := l.access = Access.exclusive }
          nfiles := h.nfiles + 1 }
        pure { res1 := dosTrue, fhArg1 := some h.files.next }

/-- `do_end`. -/
def doEnd (file : Option FileId) : HandlerM δ PacketReply := do
  match file with
  | none => answer dosTrue none
  | some f => do
    match ← fileAt (some f) with
    | none => answer dosTrue none
    | some file => do
      let h ← get
      -- nothing is written while the medium may be another one
      let rc ← if !h.fs.ef.ro && !h.inhibited then useFs (exfatFlushNode file.node)
        else pure (.ok ())
      useFs (exfatPutNode file.node)
      modify fun h => { h with files := h.files.erase f, nfiles := h.nfiles - 1 }
      match rc with
      | .error _ => refuse .diskFull
      | .ok _ => answer dosTrue none

/-- `file->pos = pos`. -/
def setPos (f : Option FileId) (pos : Int) : HandlerM δ PUnit :=
  match f with
  | none => pure ⟨⟩
  | some f => modify fun h =>
    { h with files := h.files.update f fun file => { file with pos := pos } }

/-- `do_read`. -/
def doRead (f : Option FileId) (length : Int) : HandlerM δ PacketReply := do
  match ← fileAt f with
  | none => answer (-1) (some .invalidLock)
  | some file =>
    if length < 0 then answer (-1) (some .invalidLock)
    else if length = 0 then answer 0 none
    else do
      match ← useFs (onNode file.node (exfatGenericPread length.toNat file.pos)) with
      | .error _ => answer (-1) (some .seekError)
      | .ok (n, data) => do
        setPos f (file.pos + n)
        pure { res1 := n, data := data }

/-- `do_write`. -/
def doWrite (f : Option FileId) (buffer : Nat → UInt8) (length : Int) : HandlerM δ PacketReply := do
  match ← fileAt f with
  | none => answer (-1) (some .invalidLock)
  | some file => do
    let h ← get
    -- a negative length is an error before the protection is looked at
    if length < 0 then answer (-1) (some .invalidLock)
    else if h.inhibited ∨ h.fs.ef.ro ∨ !file.writable then answer (-1) (some .diskWriteProtected)
    else if length = 0 then answer 0 none
    else do
      -- the data is in the buffer of the caller, which the handler only reads
      let data := (List.range length.toNat).map buffer
      match ← useFs (onNode file.node (exfatGenericPwrite data file.pos)) with
      | .error e => answer (-1) (some (mapErrno e))
      | .ok n => do
        setPos f (file.pos + n)
        answer n none

/-- `resolve_offset`; the modes are `OFFSET_BEGINNING`, `OFFSET_CURRENT` and `OFFSET_END`. -/
def resolveOffset (arg mode current size : Int) : Option Int :=
  if mode = -1 then some (arg % 2 ^ 32)
  else if mode = 0 then some (current + arg)
  else if mode = 1 then some (size - -arg % 2 ^ 32)
  else none

/-- `do_set_file_size`. -/
def doSetFileSize (f : Option FileId) (offset mode : Int) : HandlerM δ PacketReply := do
  match ← fileAt f with
  | none => answer (-1) (some .invalidLock)
  | some file => do
    let h ← get
    if h.inhibited ∨ h.fs.ef.ro ∨ !file.writable then answer (-1) (some .diskWriteProtected)
    else do
      let n ← useFs (getNode file.node)
      match resolveOffset offset mode file.pos n.size with
      | none => answer (-1) (some .seekError)
      | some newsize =>
        if newsize < 0 then answer (-1) (some .seekError)
        else do
          match ← useFs (onNode file.node (exfatTruncate newsize.toNat true)) with
          | .error e => answer (-1) (some (mapErrno e))
          | .ok _ => do
            -- only the position of this handle is moved back
            setPos f (min file.pos newsize)
            answer (int32 newsize) none

/-- `do_seek`. -/
def doSeek (f : Option FileId) (offset mode : Int) : HandlerM δ PacketReply := do
  match ← fileAt f with
  | none => answer (-1) (some .invalidLock)
  | some file => do
    let n ← useFs (getNode file.node)
    match resolveOffset offset mode file.pos n.size with
    | none => answer (-1) (some .seekError)
    | some newpos =>
      if newpos < 0 ∨ newpos > n.size then answer (-1) (some .seekError)
      else do
        setPos f newpos
        answer (int32 file.pos) none

/-! ### Attributes -/

/-- `lookup_arg23`. -/
def lookupArg23 (lock : Option LockId) (name : Bstr) : HandlerM δ (Except DosError NodeId) := do
  match ← resolve lock name with
  | none => pure (.error .objectNotFound)
  | some path => do
    match ← useFs (exfatLookup path) with
    | .error e => pure (.error (mapErrno e))
    | .ok i => pure (.ok i)

/-- The end of `do_set_protect` and `do_set_date`: the node is flushed and let go. -/
def flushAndPut (i : NodeId) : HandlerM δ PacketReply := do
  let rc ← useFs (exfatFlushNode i)
  useFs (exfatPutNode i)
  match rc with
  | .error _ => refuse .diskFull
  | .ok _ => answer dosTrue none

/-- The attributes `do_set_protect` derives from the protection bits. -/
def protectAttrib (attrib bits : Nat) : Nat :=
  let attrib := if bits &&& 0x05 ≠ 0 then attrib ||| attribRo else attrib &&& 0xfffe
  if bits &&& 0x10 ≠ 0 then attrib ||| attribArch else attrib &&& 0xffdf

/-- `do_set_protect`. -/
def doSetProtect (lock : Option LockId) (name : Bstr) (bits : Nat) : HandlerM δ PacketReply := do
  let h ← get
  if h.inhibited ∨ h.fs.ef.ro then refuse .diskWriteProtected
  else do
    match ← lookupArg23 lock name with
    | .error e => refuse e
    | .ok i => do
      let n ← useFs (getNode i)
      -- nothing is written when no attribute changes
      if protectAttrib n.attrib bits = n.attrib then do
        useFs (exfatPutNode i)
        answer dosTrue none
      else do
        useFs (updateNode i fun n =>
          { n with attrib := protectAttrib n.attrib bits, isDirty := true })
        flushAndPut i

/-- `do_set_date`. -/
def doSetDate (lock : Option LockId) (name : Bstr) (ds : Option DateStamp) :
    HandlerM δ PacketReply := do
  let h ← get
  -- unlike the packets before, this one does not look at `inhibited`
  if h.fs.ef.ro then refuse .diskWriteProtected
  else
    match ds with
    | none => refuse .badNumber
    | some ds => do
      match ← lookupArg23 lock name with
      | .error e => refuse e
      | .ok i => do
        useFs (updateNode i fun n =>
          { n with mtime := exfatAmigaDatestampToTime ds, isDirty := true })
        flushAndPut i

/-- `do_set_comment`. -/
def doSetComment (lock : Option LockId) (name : Bstr) (comment : Option Bstr) :
    HandlerM δ PacketReply := do
  let h ← get
  if h.inhibited ∨ h.fs.ef.ro then refuse .diskWriteProtected
  else if comment.any (!·.chars.isEmpty) then refuse .actionNotKnown
  else do
    match ← lookupArg23 lock name with
    | .error e => refuse e
    | .ok i => do
      useFs (exfatPutNode i)
      answer dosTrue none

/-! ### Entries -/

/-- The part of `do_delete_object` that removes the node. -/
def deleteNode (i : NodeId) : HandlerM δ PacketReply := do
  scanSkipNode i
  let n ← useFs (getNode i)
  let rc ← useFs (if n.isDir then exfatRmdir i else exfatUnlink i)
  useFs (exfatPutNode i)
  match rc with
  | .error e => refuse (mapErrno e)
  | .ok _ => do
    match ← useFs (exfatCleanupNode i) with
    | .error e => refuse (mapErrno e)
    | .ok _ => answer dosTrue none

/-- `do_delete_object`. -/
def doDeleteObject (lock : Option LockId) (name : Bstr) : HandlerM δ PacketReply := do
  let h ← get
  if h.inhibited ∨ h.fs.ef.ro then refuse .diskWriteProtected
  else do
    match ← resolve lock name with
    | none => refuse .objectNotFound
    | some path => do
      match ← useFs (exfatLookup path) with
      | .error e => refuse (mapErrno e)
      | .ok i => do
        let n ← useFs (getNode i)
        let h ← get
        if i = h.fs.root then do
          useFs (exfatPutNode i)
          refuse .objectWrongType
        else if n.references > 1 then do
          -- our lookup holds one reference; more means a lock or an open file
          useFs (exfatPutNode i)
          refuse .objectInUse
        else deleteNode i

/-- `do_create_dir`. -/
def doCreateDir (lock : Option LockId) (name : Bstr) : HandlerM δ PacketReply := do
  let h ← get
  if h.inhibited ∨ h.fs.ef.ro then refuse .diskWriteProtected
  else do
    match ← resolve lock name with
    | none => refuse .objectNotFound
    | some path => do
      match ← useFs (exfatMkdir path) with
      | .error e => refuse (mapErrno e)
      | .ok _ => do
        match ← useFs (exfatLookup path) with
        | .error e => refuse (mapErrno e)
        | .ok i => giveLock i .exclusive

/-- `do_rename_object`. -/
def doRenameObject (src : Option LockId) (srcName : Bstr) (dst : Option LockId) (dstName : Bstr) :
    HandlerM δ PacketReply := do
  let h ← get
  if h.inhibited ∨ h.fs.ef.ro then refuse .diskWriteProtected
  else do
    match ← resolve src srcName with
    | none => refuse .objectNotFound
    | some srcPath => do
      match ← resolve dst dstName with
      | none => refuse .objectNotFound
      | some dstPath => do
        match ← useFs (exfatRename srcPath dstPath) with
        | .error e => refuse (mapErrno e)
        | .ok _ => do
          -- all scans are lost, as the order of the entries may have changed
          scanInvalidateAll
          answer dosTrue none

/-- `do_rename_disk`. -/
def doRenameDisk (name : Option Bstr) : HandlerM δ PacketReply := do
  let h ← get
  if h.inhibited ∨ h.fs.ef.ro then refuse .diskWriteProtected
  else
    match name with
    | none => refuse .invalidComponentName
    | some name =>
      if name.chars.isEmpty then refuse .invalidComponentName
      else do
        match ← useFs (exfatSetLabel (exfatAmigaBstrToUtf8 name utf8EnameBufferMax)) with
        | .error e => refuse (mapErrno e)
        | .ok _ => do
          -- without a volume node there is no name to replace
          if h.volume.isSome then do
            -- without memory for the new name the node keeps the old one
            if ← ask Outside.allocVec then
              modify fun h => { h with
                volume := h.volume.map fun v : DeviceList => { v with name := name.chars } }
            else pure ⟨⟩
          else pure ⟨⟩
          answer dosTrue none

/-! ### The medium -/

/-- `do_inhibit` parks a volume that is in use: it is flushed as far as the medium allows. -/
def park : HandlerM δ PUnit := do
  let h ← get
  if h.fs.ef.ro then pure ⟨⟩
  else do
    let flushed ← useFs do
      match ← exfatFlushNodes with
      | .error _ => pure false
      | .ok _ => do
        match ← onVolume exfatFlush with
        | .error _ => pure false
        | .ok _ => onVolume (setVolumeDirty false)
    -- what could not be written is thrown away
    if flushed then pure ⟨⟩ else discardDirtyState
  -- the volume node is detached, and keeps its locks
  modify fun h => { h with
    volume := h.volume.map fun v : DeviceList => { v with attached := false } }

/-- `do_inhibit` with a true argument, on a handler that is not inhibited. -/
def inhibitOn : HandlerM δ PacketReply := do
  let h ← get
  if h.nlocks = 0 ∧ h.nfiles = 0 then do
    removeVolume
    releaseMount
  else park
  modify fun h => { h with inhibited := true }
  answer dosTrue none

/-- `do_inhibit` with a false argument, on a handler that is inhibited. -/
def inhibitOff : HandlerM δ PacketReply := do
  let h ← get
  -- the volume was unmounted, so it is mounted again
  if !h.mounted then do
    if !(← mountFs) then refuse .notADosDisk
    else do
      addVolume
      modify fun h => { h with inhibited := false }
      answer dosTrue none
  -- another card is in the drive
  else if !(← sameVolumeNow) then refuse .objectInUse
  else do
    -- the volume is marked as in use before it is attached again
    if ← useFs (onVolume (setVolumeDirty true)) then do
      modify fun h => { h with
        volume := h.volume.map fun v : DeviceList => { v with attached := true }
        inhibited := false }
      answer dosTrue none
    else refuse .diskFull

/-- `do_inhibit`. -/
def doInhibit (on : Bool) : HandlerM δ PacketReply := do
  let h ← get
  if on ∧ !h.inhibited then inhibitOn
  else if !on ∧ h.inhibited then inhibitOff
  else answer dosTrue none

/-- `do_format`. -/
def doFormat (_label : Option Bstr) : HandlerM δ PacketReply := do
  let h ← get
  if h.fs.ef.ro ∧ h.mounted then refuse .diskWriteProtected
  else if !h.inhibited ∨ h.mounted then refuse .objectInUse
  else if ← ask Outside.format then answer dosTrue none
  else refuse .notADosDisk

/-- `fill_infodata`. -/
def fillInfodata : HandlerM δ InfoData := do
  let h ← get
  if !h.mounted then pure { diskType := .busy }
  else do
    let (total, free, clusterSize) ← useFs do
      let t ← get
      pure (t.ef.sb.clusterCount, exfatCountFreeClusters t.ef.cmap, t.ef.sb.clusterSize)
    pure {
      writeProtected := h.fs.ef.ro
      numBlocks := total
      numBlocksUsed := sub32 total free
      bytesPerBlock := clusterSize
      diskType := if h.inhibited then .busy else .dosDisk
      volumeNode := h.volume.isSome
      inUse := h.nlocks ≠ 0 ∨ h.nfiles ≠ 0 }

/-- `ACTION_FLUSH`. -/
def doFlush : HandlerM δ PacketReply := do
  let h ← get
  if !h.fs.ef.ro ∧ h.mounted ∧ !h.inhibited then do
    let ok ← useFs do
      match ← exfatFlushNodes with
      | .error _ => pure false
      | .ok _ => do
        match ← onVolume exfatFlush with
        | .error _ => pure false
        | .ok _ => onVolume exfatFsync
    if ok then answer dosTrue none else refuse .diskFull
  else answer dosTrue none

/-- `ACTION_DIE`. -/
def doDie : HandlerM δ PacketReply := do
  let h ← get
  if h.nlocks ≠ 0 ∨ h.nfiles ≠ 0 then refuse .objectInUse
  else do
    set { h with quit := true }
    answer dosTrue none

/-! ### The loop -/

/-- The `switch` of `exfat_handler_main`. -/
def dispatch : Packet → HandlerM δ PacketReply
  | .locateObject lock name => doLocateObject lock name
  | .freeLock lock => do
    exfatAmigaFreelock lock
    releaseIfIdle
    answer dosTrue none
  | .copyDir lock => doCopyDir lock
  | .copyDirFh file => doLockFromFh file false
  | .parentFh file => doLockFromFh file true
  | .parent lock => doParent lock
  | .sameLock a b => doSameLock a b
  | .examineObject lock => doExamineObject lock
  | .examineNext lock diskKey => doExamineNext lock diskKey
  | .examineFh file fib => doExamineFh file fib
  | .find mode fh lock name => doOpen mode fh lock name
  | .fhFromLock fh lock => doFhFromLock fh lock
  | .read file length => doRead file length
  | .write file buffer length => doWrite file buffer length
  | .seek file offset mode => doSeek file offset mode
  | .setFileSize file offset mode => doSetFileSize file offset mode
  | .setProtect lock name bits => doSetProtect lock name bits
  | .setDate lock name ds => doSetDate lock name ds
  | .setComment lock name comment => doSetComment lock name comment
  | .deleteObject lock name => doDeleteObject lock name
  | .createDir lock name => doCreateDir lock name
  | .renameObject src srcName dst dstName => doRenameObject src srcName dst dstName
  | .renameDisk name => doRenameDisk name
  | .format label => doFormat label
  | .endFile file => do
    let reply ← doEnd file
    releaseIfIdle
    pure reply
  | .info => do
    let info ← fillInfodata
    pure { res1 := dosTrue, info := some info }
  | .currentVolume => do
    let h ← get
    answer (if h.volume.isSome then 1 else 0) none
  | .isFilesystem => answer dosTrue none
  | .flush => doFlush
  | .inhibit on => doInhibit on
  | .die => doDie
  | .unknown => refuse .actionNotKnown

/-- One packet: an inhibited handler refuses those that need the medium. -/
def servePacket (p : Packet) : HandlerM δ PacketReply := do
  let h ← get
  if h.inhibited && p.needsMedium then
    answer (if p.rws then -1 else dosFalse) (some .notADosDisk)
  else dispatch p

/-- The packets that are at the port until it is empty. -/
def serveBatch : List Packet → HandlerM δ (List PacketReply)
  | [] => pure []
  | p :: ps => do
    let r ← servePacket p
    let rs ← serveBatch ps
    pure (r :: rs)

/-- `while (!h->quit)`: one batch after the other, as far as they have come in. -/
def packetLoop : List (List Packet) → HandlerM δ PUnit
  | [] => pure ⟨⟩
  | batch :: batches => do
    let h ← get
    if h.quit then pure ⟨⟩
    else do
      let _ ← serveBatch batch
      packetLoop batches

/-- The end of `exfat_handler_main`. -/
def shutdown : HandlerM δ PUnit := do
  removeVolume
  unmountFs

/-- `exfat_handler_main` after the startup packet: when no more packets come in and it has not been
told to quit, it waits. -/
def handlerLoop (batches : List (List Packet)) : HandlerM δ PUnit := do
  packetLoop batches
  let h ← get
  if h.quit then shutdown else pure ⟨⟩

/-- `startup` and the publishing of the volume, `false` if there is nothing to serve. -/
def startup : HandlerM δ Bool := do
  if !(← mountFs) then pure false
  else do
    addVolume
    pure true

/-- `exfat_handler_main`. -/
def exfatHandlerMain (batches : List (List Packet)) : HandlerM δ PUnit := do
  if ← startup then handlerLoop batches else pure ⟨⟩

end Device

end ExFat
