import Atree.StorageID

/-! The slab data model as the functions of `array_debug.go` read it: headers,
children headers, elements and the root's extra data. Sizes and counts are the
code's `uint32` fields. -/

namespace Atree

/-- An element of a data slab, distinguished as `CheckHealth` and `PrintArray`
tell them apart. -/
inductive Storable where
  /-- `StorageIDStorable`: a reference to a slab stored on its own. -/
  | storageID (id : StorageID)
  /-- A `StorableSlab` value held directly as an element. -/
  | storableSlab (id : StorageID) (inner : Storable)
  /-- Any other storable, known by its `ByteSize`. -/
  | value (byteSize : UInt32)
  deriving DecidableEq

/-- `arraySlabHeader`: the id, encoded size and element count of an array slab. -/
structure ArraySlabHeader where
  id : StorageID
  size : UInt32
  count : UInt32
  deriving DecidableEq

/-- The root's extra data; `valid` compares only its type information. -/
structure ArrayExtraData where
  typeInfo : List UInt8
  deriving DecidableEq

structure ArrayDataSlab where
  header : ArraySlabHeader
  next : StorageID
  elements : List Storable
  extraData : Option ArrayExtraData
  deriving DecidableEq

structure ArrayMetaDataSlab where
  header : ArraySlabHeader
  childrenHeaders : List ArraySlabHeader
  extraData : Option ArrayExtraData
  deriving DecidableEq

/-- Modelled from the spec: a map element (§4.3), a plain key and value or a
collision group, inline or stored as its own slab. -/
inductive MapElement where
  | single (key value : Storable)
  | inlineCollisionGroup (elements : List MapElement)
  | externalCollisionGroup (id : StorageID)

/-- `MapSlabHeader`: the id, encoded size and first hashed key of a map slab. -/
structure MapSlabHeader where
  id : StorageID
  size : UInt32
  firstKey : UInt64
  deriving DecidableEq

structure MapDataSlab where
  header : MapSlabHeader
  next : StorageID
  elements : List MapElement

structure MapMetaDataSlab where
  header : MapSlabHeader
  childrenHeaders : List MapSlabHeader
  deriving DecidableEq

/-- `StorableSlab`: one storable held in a slab of its own. -/
structure StorableSlab where
  storageID : StorageID
  storable : Storable
  deriving DecidableEq

/-- The `Slab` interface, over the slab types of the package. -/
inductive Slab where
  | arrayData (slab : ArrayDataSlab)
  | arrayMeta (slab : ArrayMetaDataSlab)
  | mapData (slab : MapDataSlab)
  | mapMeta (slab : MapMetaDataSlab)
  | storable (slab : StorableSlab)

/-- `Slab.ID`. -/
def Slab.id : Slab → StorageID
  | .arrayData slab => slab.header.id
  | .arrayMeta slab => slab.header.id
  | .mapData slab => slab.header.id
  | .mapMeta slab => slab.header.id
  | .storable slab => slab.storageID

end Atree
