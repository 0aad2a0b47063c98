namespace ClassDeps.Crc32

def polynomial : UInt32 := 0xEDB88320

def shift (crc : UInt32) : UInt32 :=
  if crc &&& 1 = 1 then (crc >>> 1) ^^^ polynomial else crc >>> 1

def step (crc : UInt32) (byte : UInt8) : UInt32 :=
  let crc := crc ^^^ byte.toUInt32
  shift (shift (shift (shift (shift (shift (shift (shift crc)))))))

def checksum (data : ByteArray) : UInt32 :=
  data.foldl step 0xFFFFFFFF ^^^ 0xFFFFFFFF

end ClassDeps.Crc32
