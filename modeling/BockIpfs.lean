import BockIpfs.Paths
import BockIpfs.VirtualFs
import BockIpfs.VirtualFsFrame
import BockIpfs.VirtualFsLookup
import BockIpfs.VirtualFsNames
import BockIpfs.FilesPath
import BockIpfs.MfsTree
import BockIpfs.FilesStat
import BockIpfs.FsRoutes
import BockIpfs.NameKeyedFs
import BockIpfs.VfsJson
import BockIpfs.FilesRm
import BockIpfs.FilesIo
import BockIpfs.FilesCp
import BockIpfs.FilesStatOutput
import BockIpfs.MfsRun
import BockIpfs.GoJson
import BockIpfs.StatJson
import BockIpfs.MfsMkdir
import BockIpfs.MfsParents
import BockIpfs.MfsUndo
