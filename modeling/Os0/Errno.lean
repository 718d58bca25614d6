/-! The error numbers of `include/sys/errno.h` that the modelled calls return.
A call that fails returns the negated number. -/
namespace Os0

inductive Errno
  | EPERM
  | ENOENT
  | ESRCH
  | EIO
  | E2BIG
  | ENOEXEC
  | EBADF
  | ECHILD
  | ENOMEM
  | EACCES
  | EEXIST
  | ENOTDIR
  | EISDIR
  | EINVAL
  | ENFILE
  | EMFILE
  | ENOTTY
  | EFBIG
  | ENOSPC
  | EROFS
  | EPIPE
  | ENOSYS
  | ELOOP
  | EOVERFLOW
  | ENOTSUP
  | ENOTEMPTY
  | EUCLEAN
  | ENXIO
  deriving DecidableEq, Repr

end Os0
